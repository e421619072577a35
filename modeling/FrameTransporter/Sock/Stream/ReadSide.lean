import FrameTransporter.Sock.Stream.WriteQueue

/-! # The read side hands over what it receives

On a plain stream the bytes that were received are the bytes handed to the
delegate, followed by the bytes in the read frame. The frame under the cursor
takes each received byte behind the earlier ones, and while the delegate looks at
a frame its bytes are neither handed over nor in the read frame.
-/

namespace FrameTransporter

open Hoare Intrusive

/-- Vectors whose data ranges do not overlap. -/
def Vec.Apart (u v : Vec) : Prop := u.offset + u.limit ≤ v.offset ∨ v.offset + v.limit ≤ u.offset

namespace Frame

variable {x : Frame} {v : Vec} {rest : List Vec} {n : ℕ} {bytes : List UInt8}

/-- The vectors lie in the frame, before the table of vectors. -/
def Bounded (x : Frame) : Prop :=
  ∀ v ∈ x.vecs, v.position ≤ v.limit ∧ v.limit ≤ v.capacity ∧
    v.offset + v.limit + SIZEOF_VEC * x.vecLimit ≤ x.capacity

/-- The cursor is at a vector with room, and only empty vectors follow. -/
structure Room (x : Frame) : Prop where
  apart : x.vecs.Pairwise Vec.Apart
  bounded : x.Bounded
  cursor : ∃ v rest, x.vecs.drop x.vecPosition = v :: rest ∧ v.position < v.limit ∧
    ∀ u ∈ rest, u.position = 0 ∧ 0 < u.limit

theorem Room.congr {y : Frame} (h : x.Room) (hv : y.vecs = x.vecs)
    (hp : y.vecPosition = x.vecPosition) (hc : y.capacity = x.capacity) : y.Room where
  apart := hv ▸ h.apart
  bounded := by simpa [Bounded, vecLimit, hv, hc] using h.bounded
  cursor := by simpa [hv, hp] using h.cursor

/-- A frame to read into: it has room and nothing was read yet. -/
structure Fresh (x : Frame) : Prop extends Room x where
  position : ∀ v ∈ x.vecs, v.position = 0

/-- What a refusing delegate does to a frame: the data stay where they are, and there is room
behind them. -/
structure RoomAdded (x : Frame) (vecs : List Vec) (vecPosition : ℕ) : Prop where
  kept : List.Forall₂ (fun v u => u.offset = v.offset ∧ u.position = v.position) x.vecs
    (vecs.take x.vecs.length)
  added : ∀ u ∈ vecs.drop x.vecs.length, u.position = 0
  room : Room { x with vecs, vecPosition }

theorem vecs_advanced (hv : x.vecs.drop x.vecPosition = v :: rest) :
    (x.advanced v n).vecs =
      x.vecs.take x.vecPosition ++ { v with position := v.position + n } :: rest := by
  have hd := drop_advanced (n := n) hv
  rw [← List.take_append_drop x.vecPosition (x.advanced v n).vecs, hd]
  simp [advanced, List.take_set_of_le]

theorem vecs_eq (hv : x.vecs.drop x.vecPosition = v :: rest) :
    x.vecs = x.vecs.take x.vecPosition ++ v :: rest := by
  rw [← hv, List.take_append_drop]

theorem flatMap_received_eq_nil {vs : List Vec} (h : ∀ u ∈ vs, u.position = 0) :
    vs.flatMap x.receivedBytes = [] :=
  List.flatMap_eq_nil_iff.mpr fun u hu => by rw [receivedBytes, h u hu, slice_zero]

theorem Fresh.contents (h : x.Fresh) : x.contents = [] := flatMap_received_eq_nil h.position

theorem contents_of_pos (h : x.pos = 0) : x.contents = [] :=
  flatMap_received_eq_nil fun _ hv =>
    List.sum_eq_zero_iff.mp h _ (List.mem_map_of_mem (f := Vec.position) hv)

theorem fresh_simple (h : x.capacity = FRAME_SIZE) :
    Fresh { x with vecs := simple, vecPosition := 0 } := by
  refine ⟨⟨List.pairwise_singleton _ _, ?_, _, [], rfl, by decide, by simp⟩, by simp [simple]⟩
  simp [Bounded, simple, vecLimit, h, FRAME_SIZE, SIZEOF_VEC]

/-- The frame after `bytes` were stored at the vector under the cursor. -/
def stored (x : Frame) (v : Vec) (bytes : List UInt8) : Frame :=
  (x.write (v.offset + v.position) bytes).advanced v bytes.length

theorem vecs_stored (hv : x.vecs.drop x.vecPosition = v :: rest) : (x.stored v bytes).vecs =
    x.vecs.take x.vecPosition ++ { v with position := v.position + bytes.length } :: rest :=
  vecs_advanced (x := x.write (v.offset + v.position) bytes) hv

theorem drop_stored (hv : x.vecs.drop x.vecPosition = v :: rest) :
    (x.stored v bytes).vecs.drop (x.stored v bytes).vecPosition =
      { v with position := v.position + bytes.length } :: rest :=
  drop_advanced (x := x.write (v.offset + v.position) bytes) hv

/-- Received bytes go behind the earlier ones. -/
theorem Room.contents_stored (h : x.Room) (hv : x.vecs.drop x.vecPosition = v :: rest)
    (hrest : ∀ u ∈ rest, u.position = 0) (hn : v.position + bytes.length ≤ v.limit) :
    (x.stored v bytes).contents = x.contents ++ bytes := by
  have hpre : (x.vecs.take x.vecPosition).flatMap (x.stored v bytes).receivedBytes =
      (x.vecs.take x.vecPosition).flatMap x.receivedBytes := by
    refine List.flatMap_congr fun u hu => slice_splice_of_disjoint ?_
    have hap := h.apart
    rw [vecs_eq hv] at hap
    have huv : u.Apart v := (List.pairwise_append.mp hap).2.2 u hu v (by simp)
    have := (h.bounded u (List.mem_of_mem_take hu)).1
    simp only [Vec.Apart] at huv
    omega
  have hself : (x.stored v bytes).receivedBytes { v with position := v.position + bytes.length } =
      x.receivedBytes v ++ bytes := by
    simp only [receivedBytes, slice_add]
    congr 1
    · exact slice_splice_of_disjoint (Or.inl le_rfl)
    · exact slice_splice_self
  rw [contents, vecs_stored hv, List.flatMap_append, List.flatMap_cons, hpre, hself,
    flatMap_received_eq_nil hrest, contents]
  conv_rhs => rw [vecs_eq hv]
  rw [List.flatMap_append, List.flatMap_cons, flatMap_received_eq_nil hrest]
  simp

theorem pairwise_apart_congr {us vs : List Vec}
    (h : us.map (fun v => (v.offset, v.limit)) = vs.map (fun v => (v.offset, v.limit))) :
    us.Pairwise Vec.Apart ↔ vs.Pairwise Vec.Apart := by
  let Clear : ℕ × ℕ → ℕ × ℕ → Prop := fun a b => a.1 + a.2 ≤ b.1 ∨ b.1 + b.2 ≤ a.1
  have hmap : ∀ l : List Vec,
      l.Pairwise Vec.Apart ↔ (l.map fun v => (v.offset, v.limit)).Pairwise Clear :=
    fun l => (List.pairwise_map (R := Clear) (f := fun v : Vec => (v.offset, v.limit))).symm
  rw [hmap, hmap, h]

theorem Room.apart_stored (h : x.Room) (hv : x.vecs.drop x.vecPosition = v :: rest) :
    (x.stored v bytes).vecs.Pairwise Vec.Apart := by
  refine (pairwise_apart_congr ?_).mp h.apart
  rw [vecs_stored hv]
  conv_lhs => rw [vecs_eq hv]
  simp

theorem Room.bounded_stored (h : x.Room) (hv : x.vecs.drop x.vecPosition = v :: rest)
    (hn : v.position + bytes.length ≤ v.limit) : (x.stored v bytes).Bounded := by
  have hlen : (x.stored v bytes).vecLimit = x.vecLimit := by
    simp [stored, advanced, vecLimit, write]
  have hvx : v ∈ x.vecs := by
    rw [vecs_eq hv]
    simp
  intro u hu
  rw [hlen]
  rw [vecs_stored hv] at hu
  have hu : u ∈ x.vecs ∨ u = { v with position := v.position + bytes.length } := by
    rcases List.mem_append.mp hu with hu | hu
    · exact Or.inl (List.mem_of_mem_take hu)
    · rcases List.mem_cons.mp hu with hu | hu
      · exact Or.inr hu
      · exact Or.inl (by rw [vecs_eq hv]; simp [hu])
  rcases hu with hu | rfl
  · exact h.bounded u hu
  · exact ⟨hn, (h.bounded v hvx).2⟩

/-- A vector that is not filled leaves room behind the stored bytes. -/
theorem Room.stored (h : x.Room) (hv : x.vecs.drop x.vecPosition = v :: rest)
    (hrest : ∀ u ∈ rest, u.position = 0 ∧ 0 < u.limit)
    (hn : v.position + bytes.length < v.limit) : (x.stored v bytes).Room :=
  ⟨h.apart_stored hv, h.bounded_stored hv hn.le, _, rest, drop_stored hv, hn, hrest⟩

/-- Behind a filled vector there is room in the next one. -/
theorem Room.stored_next (h : x.Room) (hv : x.vecs.drop x.vecPosition = v :: rest)
    (hrest : ∀ u ∈ rest, u.position = 0 ∧ 0 < u.limit)
    (hn : v.position + bytes.length ≤ v.limit) (hne : rest ≠ []) :
    Frame.Room { x.stored v bytes with vecPosition := (x.stored v bytes).vecPosition + 1 } := by
  obtain ⟨u, us, rfl⟩ := List.exists_cons_of_ne_nil hne
  refine ⟨h.apart_stored hv, h.bounded_stored hv hn, u, us, drop_succ (drop_stored hv), ?_, ?_⟩
  · rw [(hrest u (by simp)).1]
    exact (hrest u (by simp)).2
  · exact fun a ha => hrest a (List.mem_cons_of_mem _ ha)

theorem flatMap_received_congr {vs us : List Vec}
    (h : List.Forall₂ (fun v u => u.offset = v.offset ∧ u.position = v.position) vs us) :
    us.flatMap x.receivedBytes = vs.flatMap x.receivedBytes := by
  induction h with
  | nil => rfl
  | cons he _ ih =>
    rw [List.flatMap_cons, List.flatMap_cons, ih, receivedBytes, he.1, he.2]
    rfl

theorem RoomAdded.contents {vecs : List Vec} {vecPosition : ℕ} (h : x.RoomAdded vecs vecPosition) :
    Frame.contents { x with vecs, vecPosition } = Frame.contents x := by
  change vecs.flatMap x.receivedBytes = x.vecs.flatMap x.receivedBytes
  rw [← List.take_append_drop x.vecs.length vecs, List.flatMap_append,
    flatMap_received_congr h.kept, flatMap_received_eq_nil h.added, List.append_nil]

end Frame

namespace Stream

variable {π : Type}

/-- The bytes that `recv` delivered, in order. -/
def recvBytes (t : List Io) : List UInt8 :=
  t.flatMap fun
    | .recv _ _ bytes => bytes
    | _ => []

/-- The contents of the frames that the delegate took, or was offered at read shutdown, in
order. -/
def handedBytes (t : List Io) : List UInt8 :=
  t.flatMap fun
    | .read _ bytes taken last => if taken ∨ last then bytes else []
    | _ => []

@[simp] theorem recvBytes_append (t u : List Io) :
    recvBytes (t ++ u) = recvBytes t ++ recvBytes u := List.flatMap_append

@[simp] theorem handedBytes_append (t u : List Io) :
    handedBytes (t ++ u) = handedBytes t ++ handedBytes u := List.flatMap_append

/-- What was received is what was handed over and what is in the read frame, and no `recv` was
asked for more than its vector has room for. -/
structure Received (w : World Stream π) : Prop where
  bytes : recvBytes w.trace = handedBytes w.trace ++
    match w.socket.readFrame with
    | none => []
    | some f => (w.heap f).contents
  within : ∀ v size bytes, .recv v size bytes ∈ w.trace → v.position + size ≤ v.limit

section Invariant

variable {w : World Stream π} {f : FrameId} {x : Frame} {s : Stream} {extra : List UInt8}
  {o : Option (FrameId × Frame)}

/-- The read side of a plain stream that holds the frame `o`, where `extra` was received and not
handed over yet. -/
structure ReadSide (extra : List UInt8) (o : Option (FrameId × Frame)) (w : World Stream π) :
    Prop where
  plain : w.socket.ssl = false ∧ w.socket.sslStatus = 0 ∧ w.socket.connecting = false
  bytes : recvBytes w.trace = handedBytes w.trace ++ extra
  within : ∀ v size bytes, .recv v size bytes ∈ w.trace → v.position + size ≤ v.limit
  live : ∀ f, w.owner f ≠ .pool → Pool.Live (w.heap f)
  capacity : ∀ f, (w.heap f).capacity = FRAME_SIZE
  frame : w.socket.readFrame = o.map Prod.fst
  held : ∀ f x, o = some (f, x) → w.owner f = .reader ∧ w.heap f = x

/-- Between the calls of the delegate the read frame, if there is one, has room. -/
def ReadInv (w : World Stream π) : Prop :=
  ReadSide [] none w ∨ ∃ f x, ReadSide x.contents (some (f, x)) w ∧ x.Room

theorem ReadSide.tick (h : ReadSide extra o w) : ReadSide extra o w.tick := { h with }

theorem ReadSide.record {y : Io} (h : ReadSide extra o w)
    (hy : recvBytes [y] = [] ∧ handedBytes [y] = []) (hn : ∀ v size bytes, y ≠ .recv v size bytes) :
    ReadSide extra o (w.record y) where
  __ := h
  bytes := by simpa [hy.1, hy.2] using h.bytes
  within v size bytes hm := by
    rcases List.mem_append.mp hm with hm | hm
    · exact h.within v size bytes hm
    · exact absurd (List.mem_singleton.mp hm).symm (hn v size bytes)

theorem ReadSide.setFrame (h : ReadSide extra o w) (hf : w.owner f ≠ .reader ∨ o = none)
    (hx : w.owner f ≠ .pool → Pool.Live x) (hc : x.capacity = FRAME_SIZE) :
    ReadSide extra o (w.setFrame f x) where
  __ := h
  live g hg := by
    by_cases e : g = f
    · subst e; simpa using hx hg
    · simpa [e] using h.live g hg
  capacity g := by
    by_cases e : g = f
    · subst e; simpa using hc
    · simpa [e] using h.capacity g
  held g y ho := by
    obtain ⟨hg, hy⟩ := h.held g y ho
    have e : g ≠ f := by
      rintro rfl
      rcases hf with hf | hf
      · exact hf hg
      · simp [hf] at ho
    exact ⟨hg, by simpa [e] using hy⟩

theorem ReadSide.setOwner {a : Owner} (h : ReadSide extra o w)
    (hf : w.owner f ≠ .reader ∨ o = none) (ha : a ≠ .pool → Pool.Live (w.heap f)) :
    ReadSide extra o (w.setOwner f a) where
  __ := h
  live g hg := by
    by_cases e : g = f
    · subst e; exact ha (by simpa using hg)
    · exact h.live g (by simpa [e] using hg)
  held g y ho := by
    obtain ⟨hg, hy⟩ := h.held g y ho
    have e : g ≠ f := by
      rintro rfl
      rcases hf with hf | hf
      · exact hf hg
      · simp [hf] at ho
    exact ⟨by simpa [e] using hg, hy⟩

/-- A change of the socket beside the read frame and the phase of the connection. -/
def SameRead (s s' : Stream) : Prop :=
  s'.readFrame = s.readFrame ∧ s'.ssl = s.ssl ∧ s'.sslStatus = s.sslStatus ∧
    s'.connecting = s.connecting

theorem ReadSide.setSocket (h : ReadSide extra o w) (hs : SameRead w.socket s) :
    ReadSide extra o (w.setSocket s) where
  __ := h
  plain := by rw [World.setSocket_socket, hs.2.1, hs.2.2.1, hs.2.2.2]; exact h.plain
  frame := hs.1.trans h.frame

theorem ReadSide.detach (h : ReadSide extra o w) :
    ReadSide extra none (w.setSocket { w.socket with readFrame := none }) where
  __ := h
  frame := rfl
  held := by simp

theorem ReadSide.attach (h : ReadSide extra none w) (hl : Pool.Live (w.heap f)) :
    ReadSide extra (some (f, w.heap f))
      ((w.setOwner f .reader).setSocket { w.socket with readFrame := some f }) where
  __ := h.setOwner (Or.inr rfl) fun _ => hl
  frame := rfl
  held g y ho := by
    obtain ⟨rfl, rfl⟩ := Prod.mk.inj (Option.some.inj ho)
    simp

/-- The frame that is being read changes, and so do the bytes that are not handed over. -/
theorem ReadSide.setReadFrame {y : Frame} (h : ReadSide extra (some (f, x)) w)
    (hl : Pool.Live y) (hc : y.capacity = FRAME_SIZE) :
    ReadSide extra (some (f, y)) (w.setFrame f y) where
  __ := (show ReadSide extra none (w.setSocket { w.socket with readFrame := none }) from
    h.detach).setFrame (f := f) (x := y) (Or.inr rfl) (fun _ => hl) hc
  frame := h.frame
  held g z ho := by
    obtain ⟨rfl, rfl⟩ := Prod.mk.inj (Option.some.inj ho)
    exact ⟨(h.held _ x rfl).1, by simp⟩

theorem ReadInv.received (h : ReadInv w) : Received w := by
  rcases h with h | ⟨f, x, h, -⟩
  · refine ⟨?_, h.within⟩
    have hf : w.socket.readFrame = none := h.frame
    rw [hf]
    exact h.bytes
  · refine ⟨?_, h.within⟩
    have hf : w.socket.readFrame = some f := h.frame
    have hx : w.heap f = x := (h.held f x rfl).2
    rw [hf]
    simpa [hx] using h.bytes

end Invariant

section Delegate

/-- A delegate of the read side: it fetches frames to read into, and it refuses a frame only after
it made sure that there is room in it. -/
structure ReadDelegate (E : Fault → Prop) (d : Delegate π) : Prop where
  preserves : ∀ extra, d.Preserves E (ReadSide extra none) Unrelated
  fresh : ∀ g ∈ d.getReadFrame, ∀ extra w, ReadSide extra none w →
    wp E g (fun r w' => ∀ f, r = some f → w'.owner f = .user ∧ (w'.heap f).Fresh) w
  refuse : ∀ extra w f, ReadSide extra none w → w.owner f = .user →
    wp E (d.read f) (fun taken w' => taken = false → w'.owner f = .user ∧
      ((w.heap f).vecs ≠ [] → (w'.heap f).contents = (w.heap f).contents ∧ (w'.heap f).Room)) w

end Delegate

section Functions

variable (env : Env) {d : Delegate π} {E : Fault → Prop} {w : World Stream π} {f : FrameId}
  {x : Frame} {extra : List UInt8} {o : Option (FrameId × Frame)}

theorem sameRead_readSetEvent (e : Finset ReadEvent) (s : Stream) :
    SameRead s (readSetEvent e s) := by
  rw [readSetEvent_eq]
  exact ⟨rfl, rfl, rfl, rfl⟩

theorem sameRead_readUnsetEvent (e : Finset ReadEvent) (s : Stream) :
    SameRead s (readUnsetEvent e s) := by
  rw [readUnsetEvent_eq]
  exact ⟨rfl, rfl, rfl, rfl⟩

/-- Pausing never fails; resuming does when reading is not paused. -/
theorem cntlReadPause_wp (on : Bool) (h : ReadSide extra o w)
    (hE : on = true ∨ E (.abort .readPauseLevel)) :
    wp E (cntlReadPause on) (fun _ => ReadSide extra o) w := by
  rw [cntlReadPause, wp_bind, wp_getSocket]
  cases on with
  | true =>
    have h₁ := h.setSocket (s := { w.socket with
      readPauseLevel := w.socket.readPauseLevel + 1 }) ⟨rfl, rfl, rfl, rfl⟩
    rw [if_pos rfl, wp_bind, wp_modifySocket, wp_bind, wp_when]
    exact ⟨fun _ => h₁.setSocket (sameRead_readUnsetEvent ∅ _), fun _ => h₁⟩
  | false =>
    have hE : E (.abort .readPauseLevel) := by simpa using hE
    have h₁ := h.setSocket (s := { w.socket with
      readPauseLevel := w.socket.readPauseLevel - 1 }) ⟨rfl, rfl, rfl, rfl⟩
    rw [if_neg (by simp), wp_ite]
    refine ⟨fun _ => hE, fun _ => ?_⟩
    rw [wp_bind, wp_modifySocket, wp_bind, wp_when]
    exact ⟨fun _ => h₁.setSocket (sameRead_readSetEvent ∅ _), fun _ => h₁⟩

theorem pauseNoframes_wp (h : ReadSide extra o w) :
    wp E pauseNoframes (fun _ => ReadSide extra o) w := by
  rw [pauseNoframes, wp_bind, wp_modifySocket, wp_bind]
  exact cntlReadPause_wp true (h.setSocket ⟨rfl, rfl, rfl, rfl⟩) (Or.inl rfl)

/-- A borrowed frame is empty and in the hands of the user. -/
theorem poolBorrow_readSide (ctx : Context) {type : FrameType} {file : String} {line : ℕ}
    (h : ReadSide extra o w) (ht : type ≠ .free) (hl : line ≠ 0) :
    wp E (poolBorrow ctx type file line) (fun r w' => ReadSide extra o w' ∧
      ∀ f, r = some f → w'.owner f = .user ∧ (w'.heap f).vecs = []) w := by
  rw [poolBorrow, wp_bind, wp_ask, wp_bind, wp_get]
  cases hf : ctx.framePool w.clock with
  | none => exact ⟨h.tick, by simp⟩
  | some f =>
    dsimp only
    rw [wp_ite]
    refine ⟨fun ho => ?_, fun _ => ⟨h.tick, by simp⟩⟩
    have ho' : w.tick.owner f ≠ .reader := by rw [ho]; simp
    have h₁ := h.tick.setFrame (x := Pool.resetFrame (w.tick.heap f) type file line) (Or.inl ho')
      (fun hne => absurd ho hne) (h.capacity f)
    have h₂ := h₁.setOwner (f := f) (a := .user) (Or.inl ho')
      (fun _ => by simpa using Pool.live_resetFrame ht hl)
    refine ⟨h₂, fun g hg => ?_⟩
    obtain rfl := Option.some.inj hg
    exact ⟨by simp, by simp [Pool.resetFrame]⟩

theorem frameReturn_readSide (ctx : Context) (h : ReadSide extra o w) (ho : w.owner f = .user) :
    wp E (frameReturn ctx f) (fun _ => ReadSide extra o) w := by
  obtain ⟨ht, hfile, hline⟩ := h.live f (by simp [ho])
  have ho' : w.owner f ≠ .reader := by simp [ho]
  simp only [frameReturn, wp_bind, wp_getFrame, if_neg ht, if_neg hfile, if_neg hline, wp_ask,
    wp_setFrame, wp_setOwner, wp_record]
  -- the header is only invalid once the pool owns the frame
  have h₁ := h.tick.setOwner (f := f) (a := .pool) (Or.inl ho') (by simp)
  have h₂ := h₁.setFrame (f := f) (x := { w.heap f with
    type := .free, next := ctx.availableFrames w.clock, lastSeenByFile := none,
    lastSeenByLine := 0 }) (Or.inl (by simp)) (by simp) (h.capacity f)
  exact h₂.record ⟨rfl, rfl⟩ (by simp)

theorem releaseFrame_readSide (hd : ReadDelegate E d) (side : Char) (h : ReadSide extra none w)
    (ho : w.owner f = .user) :
    wp E (releaseFrame env d f side) (fun _ => ReadSide extra none) w := by
  have h₁ : ReadSide extra none ((w.setOwner f .user).record (.release f side)) :=
    (h.setOwner (Or.inr rfl) fun _ => h.live f (by simp [ho])).record ⟨rfl, rfl⟩ (by simp)
  rw [releaseFrame, wp_bind, wp_setOwner, wp_bind, wp_record]
  cases hg : d.frameReturn with
  | none => exact frameReturn_readSide env.toContext h₁ (by simp)
  | some g =>
    exact wp_mono ((hd.preserves extra).frameReturn g hg f side _ h₁) fun _ _ h' => h'.1

/-- The received bytes become handed-over bytes, unless the delegate refuses the frame. -/
theorem deliver_wp (hd : ReadDelegate E d) (last : Bool)
    (h : ReadSide (w.heap f).contents none w) (ho : w.owner f ≠ .pool) :
    wp E (deliver d f last) (fun taken w' =>
      ReadSide (if taken ∨ last then [] else (w.heap f).contents) none w' ∧
        (taken = false → w'.owner f = .user ∧ ((w.heap f).vecs ≠ [] →
          (w'.heap f).contents = (w.heap f).contents ∧ (w'.heap f).Room))) w := by
  have h₁ : ReadSide (w.heap f).contents none
      ((w.setOwner f .user).record (.offer f (w.heap f).type)) :=
    (h.setOwner (Or.inr rfl) fun _ => h.live f ho).record ⟨rfl, rfl⟩ (by simp)
  rw [deliver, wp_bind, wp_getFrame, wp_bind, wp_setOwner, wp_bind, wp_record, wp_bind]
  refine wp_mono (wp_and ((hd.preserves _).read f _ h₁) (hd.refuse _ _ f h₁ (by simp))) ?_
  rintro taken w₂ ⟨⟨h₂, _⟩, hr⟩
  rw [wp_bind, wp_record]
  refine ⟨{ h₂ with bytes := ?_, within := fun v size bytes hm => ?_ }, hr⟩
  · have hb := h₂.bytes
    by_cases hc : taken = true ∨ last = true
    · simpa [recvBytes, handedBytes, hc] using hb
    · simpa [recvBytes, handedBytes, hc] using hb
  · exact h₂.within v size bytes (by simpa using hm)

theorem deliverOrRelease_wp (hd : ReadDelegate E d) (last : Bool)
    (h : ReadSide (w.heap f).contents none w) (ho : w.owner f ≠ .pool)
    (hlast : last = true ∨ (w.heap f).contents = []) :
    wp E (deliverOrRelease env d f last) (fun _ => ReadSide [] none) w := by
  rw [deliverOrRelease, wp_bind]
  refine wp_mono (deliver_wp hd last h ho) ?_
  rintro taken w' ⟨h', hr⟩
  have h' : ReadSide [] none w' := by
    rcases hlast with rfl | hnil
    · simpa using h'
    · simpa [hnil] using h'
  rw [wp_ite]
  exact ⟨fun _ => h', fun ht => releaseFrame_readSide env hd 'R' h' (hr (by simpa using ht)).1⟩

/-- Behind the partial uplink of a read shutdown only an empty read frame may be left. -/
theorem uplinkPartial_wp (hd : ReadDelegate E d) (h : ReadInv w) :
    wp E (uplinkPartial env d) (fun _ w' => ∃ o, ReadSide [] o w' ∧
      ∀ f x, o = some (f, x) → x.pos = 0) w := by
  rw [uplinkPartial, wp_bind, wp_getSocket]
  rcases h with h | ⟨f, x, h, -⟩
  · rw [show w.socket.readFrame = none from h.frame]
    exact ⟨none, h, by simp⟩
  · obtain ⟨ho, rfl⟩ := h.held f x rfl
    rw [show w.socket.readFrame = some f from h.frame]
    dsimp only
    rw [wp_bind, wp_getFrame, wp_when]
    refine ⟨fun _ => ?_, fun h0 => ?_⟩
    · rw [wp_bind, wp_modifySocket]
      refine wp_mono (deliverOrRelease_wp env hd true h.detach (by simp [ho]) (Or.inl rfl)) ?_
      exact fun _ w' h' => ⟨none, h', by simp⟩
    · have h0 : (w.heap f).pos = 0 := Nat.eq_zero_of_not_pos h0
      refine ⟨some (f, w.heap f), Frame.contents_of_pos h0 ▸ h, fun g y hg => ?_⟩
      obtain ⟨rfl, rfl⟩ := Prod.mk.inj (Option.some.inj hg)
      exact h0

/-- The end-of-stream frame is empty, and it is no longer the read frame. -/
theorem endOfStreamFrame_wp (h : ReadSide [] o w) (h0 : ∀ f x, o = some (f, x) → x.pos = 0) :
    wp E (endOfStreamFrame env) (fun r w' => ReadSide [] none w' ∧
      ∀ f, r = some f → w'.owner f ≠ .pool ∧ (w'.heap f).vecs = []) w := by
  rw [endOfStreamFrame, wp_bind, wp_getSocket]
  cases o with
  | none =>
    rw [show w.socket.readFrame = none from h.frame]
    refine wp_mono (poolBorrow_readSide env.toContext h (by simp) (by simp)) fun r w' h' => ?_
    exact ⟨h'.1, fun f hf => ⟨by simp [(h'.2 f hf).1], (h'.2 f hf).2⟩⟩
  | some o =>
    obtain ⟨f, x⟩ := o
    obtain ⟨ho, rfl⟩ := h.held f x rfl
    rw [show w.socket.readFrame = some f from h.frame]
    simp only [wp_bind, wp_getFrame, if_pos (h0 f _ rfl), wp_modifySocket, wp_setFrame, wp_pure]
    have hl := h.live f (by simp [ho])
    refine ⟨h.detach.setFrame (Or.inr rfl) (fun _ => ⟨by simp, hl.2⟩) (h.capacity f), ?_⟩
    intro g hg
    obtain rfl := Option.some.inj hg
    exact ⟨by simp [ho], by simp [Frame.formatEmpty]⟩

/-- A read shutdown hands over everything that was received. -/
theorem readShutdownNow_wp (hd : ReadDelegate E d) (h : ReadInv w) :
    wp E (readShutdownNow env d) (fun _ => ReadSide [] none) w := by
  rw [readShutdownNow, wp_bind, cntlReadStop, wp_bind, wp_modifySocket, wp_pure, wp_bind,
    wp_modifySocket, wp_bind]
  have h₁ : ReadInv ((w.setSocket (readUnsetEvent {.READ_WANT_READ} w.socket)).setSocket
      { readUnsetEvent {.READ_WANT_READ} w.socket with readShutdown := true }) := by
    have hs : SameRead w.socket { readUnsetEvent {.READ_WANT_READ} w.socket with
        readShutdown := true } := sameRead_readUnsetEvent _ _
    refine h.imp (·.setSocket hs) ?_
    rintro ⟨f, x, h, hx⟩
    exact ⟨f, x, h.setSocket hs, hx⟩
  refine wp_mono (uplinkPartial_wp env hd h₁) ?_
  rintro _ w₂ ⟨o, h₂, h0⟩
  rw [wp_bind]
  refine wp_mono (endOfStreamFrame_wp env h₂ h0) ?_
  rintro r w₃ ⟨h₃, hr⟩
  have h₃ : ReadSide [] none (w₃.record (.readEnd r)) := h₃.record ⟨rfl, rfl⟩ (by simp)
  rw [wp_bind, wp_record]
  cases r with
  | none => exact pauseNoframes_wp h₃
  | some f =>
    obtain ⟨ho, hv⟩ := hr f rfl
    have hc : (w₃.heap f).contents = [] := by simp [Frame.contents, hv]
    exact deliverOrRelease_wp env hd false (hc.symm ▸ h₃) ho (Or.inr hc)

theorem fetchReadFrame_wp (hd : ReadDelegate E d) (h : ReadSide [] none w) :
    wp E (fetchReadFrame env d) (fun r w' => ReadSide [] none w' ∧
      ∀ f, r = some f → w'.owner f = .user ∧ (w'.heap f).Fresh) w := by
  rw [fetchReadFrame]
  cases hg : d.getReadFrame with
  | some g =>
    refine wp_mono (wp_and ((hd.preserves []).getReadFrame g hg w h) (hd.fresh g hg [] w h)) ?_
    exact fun r w' h' => ⟨h'.1.1, h'.2⟩
  | none =>
    dsimp only
    rw [wp_bind]
    refine wp_mono (poolBorrow_readSide env.toContext h (by simp) (by simp)) fun r w' h' => ?_
    cases r with
    | none => exact ⟨h'.1, by simp⟩
    | some f =>
      obtain ⟨h₁, hr⟩ := h'
      obtain ⟨ho, -⟩ := hr f rfl
      simp only [wp_bind, wp_getFrame, Frame.formatSimple_eq (h₁.capacity f), wp_liftM_ok,
        wp_setFrame, wp_pure]
      refine ⟨h₁.setFrame (Or.inr rfl) (fun _ => h₁.live f (by simp [ho])) (h₁.capacity f), ?_⟩
      intro g hg
      obtain rfl := Option.some.inj hg
      exact ⟨by simpa using ho, by simpa using Frame.fresh_simple (h₁.capacity f)⟩

/-- The read frame is the current one or a fresh one. -/
theorem takeReadFrame_wp (hd : ReadDelegate E d) (h : ReadInv w) :
    wp E (takeReadFrame env d) (fun r w' =>
      match r with
      | none => ReadInv w'
      | some f => ∃ x, ReadSide x.contents (some (f, x)) w' ∧ x.Room) w := by
  rw [takeReadFrame, wp_bind, wp_getSocket, wp_ite]
  rcases h with h | ⟨f, x, h, hx⟩
  · refine ⟨fun hf => absurd h.frame hf, fun _ => ?_⟩
    rw [wp_bind]
    refine wp_mono (fetchReadFrame_wp env hd h) ?_
    rintro r w₁ ⟨h₁, hr⟩
    cases r with
    | none =>
      rw [wp_bind]
      exact wp_mono (pauseNoframes_wp h₁) fun _ _ h' => Or.inl h'
    | some f =>
      obtain ⟨ho, hf⟩ := hr f rfl
      have h₂ := h₁.record (y := .obtained f) ⟨rfl, rfl⟩ (by simp)
      rw [wp_bind, wp_record, wp_bind, wp_setOwner, wp_bind, wp_modifySocket, wp_pure]
      refine ⟨w₁.heap f, ?_, hf.toRoom⟩
      rw [hf.contents]
      exact h₂.attach (h₁.live f (by simp [ho]))
  · have hf : w.socket.readFrame = some f := h.frame
    rw [hf]
    exact ⟨fun _ => ⟨x, h, hx⟩, fun hn => by simp at hn⟩

/-- `recv` only fails because there is nothing to read yet. -/
def RecvOk (env : Env) : Prop := ∀ s n e, env.recv s n = .failed e → e = .EAGAIN

/-- A `recv` within the limit of a vector. -/
theorem ReadSide.recv {v : Vec} {size : ℕ} {bytes : List UInt8} (h : ReadSide extra o w)
    (hs : v.position + size ≤ v.limit) :
    ReadSide (extra ++ bytes) o (w.record (.recv v size bytes)) where
  __ := h
  bytes := by
    have hb : recvBytes w.trace ++ bytes = handedBytes w.trace ++ (extra ++ bytes) := by
      rw [h.bytes, List.append_assoc]
    simpa [recvBytes, handedBytes] using hb
  within u n bs hm := by
    rcases List.mem_append.mp hm with hm | hm
    · exact h.within u n bs hm
    · obtain ⟨rfl, rfl, -⟩ := Io.recv.inj (List.mem_singleton.mp hm)
      exact hs

/-- Either the read loop returns, or some bytes were received for the read frame. -/
theorem receive_wp (hd : ReadDelegate E d) (henv : RecvOk env) {v : Vec} {size : ℕ}
    (h : ReadSide x.contents (some (f, x)) w) (hx : x.Room) (hs : v.position + size ≤ v.limit) :
    wp E (receive env d v size) (fun r w' =>
      match r with
      | none => ReadInv w'
      | some bytes => bytes.length ≤ size ∧ ReadSide (x.contents ++ bytes) (some (f, x)) w') w := by
  rw [receive, wp_bind, wp_getSocket, if_pos h.plain.1, recvPlain, wp_bind, wp_getSocket, wp_bind,
    wp_ask]
  have h₁ : ReadSide x.contents (some (f, x)) (w.tick.record (.recv v size [])) := by
    have h₀ : ReadSide (x.contents ++ []) (some (f, x)) (w.tick.record (.recv v size [])) :=
      h.tick.recv hs
    simpa using h₀
  cases hr : env.recv w.socket w.clock with
  | failed e =>
    obtain rfl := henv _ _ _ hr
    exact Or.inr ⟨f, x, h₁.setSocket (sameRead_readSetEvent _ _), hx⟩
  | data bytes =>
    simp only [wp_bind, wp_record, wp_ite, wp_pure]
    refine ⟨fun hnil => ?_, fun _ => ⟨List.length_take_le _ _, h.tick.recv hs⟩⟩
    rw [hnil, wp_modifySocket, wp_bind]
    have h₂ : ReadInv ((w.tick.record (.recv v size [])).setSocket { w.socket with
        sysErrno := none, sslError := 0 }) :=
      Or.inr ⟨f, x, h₁.setSocket ⟨rfl, rfl, rfl, rfl⟩, hx⟩
    exact wp_mono (readShutdownNow_wp env hd h₂) fun _ _ h' => Or.inl h'

/-- A refused frame becomes the read frame again. -/
theorem ReadSide.reattach (h : ReadSide x.contents none w) (ho : w.owner f = .user)
    (hc : (w.heap f).contents = x.contents) (hroom : (w.heap f).Room) :
    ReadInv ((w.setOwner f .reader).setSocket { w.socket with readFrame := some f }) :=
  Or.inr ⟨f, w.heap f, (show ReadSide (w.heap f).contents none w from hc.symm ▸ h).attach
    (h.live f (by simp [ho])), hroom⟩

/-- The delegate looks at the detached read frame: it takes the frame, or the frame may be attached
again. -/
theorem deliver_detached (hd : ReadDelegate E d) (h : ReadSide x.contents (some (f, x)) w)
    (hx : x.vecs ≠ []) :
    wp E (deliver d f false) (fun taken w' =>
      if taken then ReadInv w'
      else w'.socket.readFrame = none ∧
        ReadInv ((w'.setOwner f .reader).setSocket { w'.socket with readFrame := some f }))
      (w.setSocket { w.socket with readFrame := none }) := by
  obtain ⟨ho, rfl⟩ := h.held f x rfl
  refine wp_mono (deliver_wp hd false h.detach (by simp [ho])) ?_
  rintro taken w' ⟨h', hr⟩
  cases taken with
  | true => exact Or.inl (by simpa using h')
  | false =>
    obtain ⟨ho', hv⟩ := hr rfl
    obtain ⟨hc, hroom⟩ := hv hx
    exact ⟨h'.frame, ReadSide.reattach (by simpa using h') ho' hc hroom⟩

theorem uplink_wp (hd : ReadDelegate E d) (h : ReadSide x.contents (some (f, x)) w)
    (hx : x.vecs ≠ []) : wp E (uplink d f) (fun _ => ReadInv) w := by
  rw [uplink, wp_bind, wp_modifySocket, wp_bind]
  refine wp_mono (deliver_detached hd h hx) fun taken w' h' => ?_
  cases taken with
  | true => exact h'
  | false => exact h'.2

theorem uplinkAlone_wp (hd : ReadDelegate E d) (h : ReadSide x.contents (some (f, x)) w)
    (hx : x.vecs ≠ []) : wp E (uplinkAlone d f) (fun _ => ReadInv) w := by
  rw [uplinkAlone, wp_bind, wp_modifySocket, wp_bind]
  refine wp_mono (deliver_detached hd h hx) fun taken w' h' => ?_
  cases taken with
  | true => exact h'
  | false =>
    rw [if_neg (by simp), wp_bind, wp_getSocket, if_neg (not_not.mpr h'.1)]
    exact h'.2

theorem ReadInv.setSocket {s : Stream} (h : ReadInv w) (hs : SameRead w.socket s) :
    ReadInv (w.setSocket s) :=
  h.imp (·.setSocket hs) fun ⟨f, x, h, hx⟩ => ⟨f, x, h.setSocket hs, hx⟩

/-- Received bytes were stored behind the cursor of the read frame. -/
theorem vecAdvanced_wp (hd : ReadDelegate E d) {v : Vec} {rest : List Vec}
    {filled : Bool} (h : ReadSide x.contents (some (f, x)) w)
    (hv : x.vecs.drop x.vecPosition = v :: rest) (hroom : filled = false → x.Room)
    (hrest : rest ≠ [] → Frame.Room { x with vecPosition := x.vecPosition + 1 }) :
    wp E (vecAdvanced d f filled) (fun _ => ReadInv) w := by
  have hne : x.vecs ≠ [] := by
    rintro hnil
    simp [hnil] at hv
  obtain ⟨ho, rfl⟩ := h.held f x rfl
  rw [vecAdvanced, wp_bind, wp_getSocket, wp_ite]
  refine ⟨fun hf => ?_, fun hf => ?_⟩
  · rw [wp_bind, wp_when]
    refine ⟨fun _ => ?_, fun _ => ?_⟩
    · refine wp_mono (uplinkAlone_wp hd h hne) fun _ w' h' => ?_
      exact h'.setSocket (sameRead_readSetEvent _ _)
    · exact Or.inr ⟨f, _, h.setSocket (sameRead_readSetEvent _ _), hroom hf⟩
  · have h₁ : ReadSide (Frame.contents { w.heap f with vecPosition := (w.heap f).vecPosition + 1 })
        (some (f, { w.heap f with vecPosition := (w.heap f).vecPosition + 1 }))
        (w.setFrame f { w.heap f with vecPosition := (w.heap f).vecPosition + 1 }) :=
      h.setReadFrame (h.live f (by simp [ho])) (h.capacity f)
    have hup : wp E (do
        uplink d f
        let s ← getSocket
        return decide (.READ_WANT_READ ∈ s.readEvents)) (fun _ => ReadInv)
        (w.setFrame f { w.heap f with vecPosition := (w.heap f).vecPosition + 1 }) := by
      rw [wp_bind]
      exact wp_mono (uplink_wp hd h₁ hne) fun _ _ h' => h'
    rw [wp_bind, wp_getFrame, wp_bind, Frame.nextVec_of_drop hv, wp_liftM_ok, wp_bind, wp_setFrame,
      wp_ite]
    refine ⟨fun _ => hup, fun hmore => ?_⟩
    rw [wp_ite]
    exact ⟨fun _ => hup, fun _ => Or.inr ⟨f, _, h₁, hrest (by simpa using hmore)⟩⟩

/-- One round of the read loop. -/
theorem readVec_wp (hd : ReadDelegate E d) (henv : RecvOk env)
    (h : ReadSide x.contents (some (f, x)) w) (hx : x.Room) :
    wp E (readVec env d f) (fun _ => ReadInv) w := by
  obtain ⟨v, rest, hv, hlt, hrest⟩ := hx.cursor
  obtain ⟨ho, rfl⟩ := h.held f x rfl
  have hsize : toSize (v.limit - v.position) = v.limit - v.position := toSize_sub hlt.le
  rw [readVec, wp_bind, wp_getFrame, wp_bind, Frame.getVec_of_drop hv, wp_liftM_ok]
  dsimp only
  rw [hsize, if_neg (by omega), wp_bind]
  refine wp_mono (receive_wp env hd henv h hx (by omega)) fun r w₁ h₁ => ?_
  cases r with
  | none => exact h₁
  | some bytes =>
    obtain ⟨hlen, h₁⟩ := h₁
    have hn : v.position + bytes.length ≤ v.limit := by omega
    have hcap : v.position + bytes.length ≤ v.capacity := by
      have := (hx.bounded v (by rw [Frame.vecs_eq hv]; simp)).2.1
      omega
    have hadv : ((w.heap f).write (v.offset + v.position) bytes).advanceVec v bytes.length =
        .ok ((w.heap f).stored v bytes) := Frame.advanceVec_eq hn hcap
    have hl : Pool.Live (w.heap f) := h.live f (by simp [ho])
    have h₂ : ReadSide ((w.heap f).stored v bytes).contents (some (f, (w.heap f).stored v bytes))
        (w₁.setFrame f ((w.heap f).stored v bytes)) := by
      rw [hx.contents_stored hv (fun u hu => (hrest u hu).1) hn]
      exact h₁.setReadFrame hl (h.capacity f)
    dsimp only
    rw [hadv, wp_bind, wp_liftM_ok, wp_bind, wp_setFrame]
    refine vecAdvanced_wp hd h₂ (Frame.drop_stored hv) (fun hfill => ?_)
      (hx.stored_next hv hrest hn)
    exact hx.stored hv hrest (by simpa using hfill)

theorem readLoop_wp (hd : ReadDelegate E d) (henv : RecvOk env) (n : ℕ) :
    ∀ {w : World Stream π}, ReadInv w → wp E (readLoop env d n) (fun _ => ReadInv) w := by
  induction n with
  | zero => exact fun h => h.setSocket (sameRead_readSetEvent _ _)
  | succ n ih =>
    intro w h
    rw [readLoop, wp_bind]
    refine wp_mono (takeReadFrame_wp env hd h) fun r w₁ h₁ => ?_
    cases r with
    | none => exact h₁
    | some f =>
      obtain ⟨x, h₁, hx⟩ := h₁
      rw [wp_bind]
      refine wp_mono (readVec_wp env hd henv h₁ hx) fun more w₂ h₂ => ?_
      rw [wp_ite]
      exact ⟨fun _ => ih h₂, fun _ => h₂⟩

theorem ReadInv.plain (h : ReadInv w) :
    w.socket.ssl = false ∧ w.socket.sslStatus = 0 ∧ w.socket.connecting = false :=
  h.elim (·.plain) fun ⟨_, _, h, _⟩ => h.plain

theorem onReadEvent_wp (hd : ReadDelegate E d) (henv : RecvOk env) (h : ReadInv w) :
    wp E (onReadEvent env d) (fun _ => ReadInv) w := by
  have hest : w.socket.Established := ⟨h.plain.2.2, Or.inl ⟨h.plain.1, h.plain.2.1⟩⟩
  rw [onReadEvent, wp_bind, wp_getSocket, if_neg (not_not.mpr hest)]
  exact readLoop_wp env hd henv _ h

theorem onRead_wp (hd : ReadDelegate E d) (henv : RecvOk env) (h : ReadInv w) :
    wp E (onRead env d) (fun _ => ReadInv) w := by
  rw [onRead, wp_bind, wp_getSocket, wp_ite]
  refine ⟨fun _ => h.setSocket ⟨rfl, rfl, rfl, rfl⟩, fun _ => ?_⟩
  rw [wp_bind]
  refine wp_mono (Q := fun _ => ReadInv) ?_ fun _ w' h' => ?_
  · rw [wp_when]
    exact ⟨fun _ => onReadEvent_wp env hd henv h, fun _ => h⟩
  · rw [wp_bind, wp_getSocket, wp_when]
    exact ⟨fun hs => by simp [h'.plain.1] at hs, fun _ => h'⟩

end Functions

section Runs

/-- The frames that `get_read_frame` answers are as `ok` says. -/
def Script.Fetches (ok : Frame → Prop) (script : Script) : Prop :=
  ∀ g ∈ script.getReadFrame, ∀ n cs f vecs vecPosition, g n = (cs, some (f, vecs, vecPosition)) →
    ∀ x : Frame, x.capacity = FRAME_SIZE → ok { x with vecs, vecPosition }

/-- A refused data frame has room behind the bytes that were received. -/
def Script.Refuses (script : Script) : Prop :=
  ∀ f x n cs vecs vecPosition, script.read f x n = (cs, some (vecs, vecPosition)) → x.vecs ≠ [] →
    x.RoomAdded vecs vecPosition

/-- Runs of read events and of the controls of the read side, with users working on their own
frames. -/
def ReadRun (_ : World Stream π) : Event → Prop
  | .call (.cntl codes) => codes ⊆ {.READ_START, .READ_STOP, .READ_PAUSE, .READ_RESUME}
  | .call (.setPartial _) | .call (.borrow _) | .call (.frameReturn _) | .call (.fill ..) | .read =>
    True
  | _ => False

instance (w : World Stream π) : (e : Event) → Decidable (ReadRun w e)
  | .call (.cntl codes) =>
    inferInstanceAs (Decidable (codes ⊆ {.READ_START, .READ_STOP, .READ_PAUSE, .READ_RESUME}))
  | .call (.setPartial _) | .call (.borrow _) | .call (.frameReturn _) | .call (.fill ..) | .read =>
    inferInstanceAs (Decidable True)
  | .call (.write _) | .call (.enableSsl _) | .write | .error => inferInstanceAs (Decidable False)

variable (env : Env) {d : Delegate π} {E : Fault → Prop} {w : World Stream π}
  {extra : List UInt8} {o : Option (FrameId × Frame)}

theorem cntlCode_preserves (hE : E (.abort .readPauseLevel)) {c : Cntl}
    (hc : c ∈ ({.READ_START, .READ_STOP, .READ_PAUSE, .READ_RESUME} : Finset Cntl)) :
    Preserves E (ReadSide extra o) Unrelated (cntlCode env d c) := by
  intro w h
  simp only [Finset.mem_insert, Finset.mem_singleton] at hc
  rcases hc with rfl | rfl | rfl | rfl
  · exact ⟨h.setSocket (sameRead_readSetEvent _ _), trivial⟩
  · exact ⟨h.setSocket (sameRead_readUnsetEvent _ _), trivial⟩
  · exact wp_mono (cntlReadPause_wp true h (Or.inl rfl)) fun _ _ h' => ⟨h', trivial⟩
  · exact wp_mono (cntlReadPause_wp false h (Or.inr hE)) fun _ _ h' => ⟨h', trivial⟩

/-- No call of such a run moves bytes, or touches the read frame. -/
theorem call_preserves_readSide (hE : E (.abort .readPauseLevel)) (c : Call) :
    Preserves E (ReadSide extra o) Unrelated (c.exec env d ReadRun) := by
  intro w h
  rw [Call.exec, wp_bind, wp_get, wp_when]
  refine ⟨?_, fun _ => ⟨h, trivial⟩⟩
  rintro ⟨hperm, hrun⟩
  cases c with
  | cntl codes =>
    rw [Call.perform, wp_bind]
    refine wp_mono (cntlCodes_preserves (fun c hc => ?_) w h) fun _ _ h' => h'
    exact cntlCode_preserves env hE (hrun (by simpa using (List.mem_filter.mp hc).2))
  | setPartial b => exact ⟨h.setSocket ⟨rfl, rfl, rfl, rfl⟩, trivial⟩
  | borrow type =>
    rw [Call.perform, wp_bind]
    refine wp_mono (poolBorrow_readSide env.toContext h hperm (by simp)) fun _ _ h' => ?_
    exact ⟨h'.1, trivial⟩
  | frameReturn f =>
    exact wp_mono (frameReturn_readSide env.toContext h hperm) fun _ _ h' => ⟨h', trivial⟩
  | fill f type vecs vecPosition data =>
    have hperm : w.owner f = .user ∧ type ≠ .free := hperm
    refine ⟨h.setFrame (Or.inl (by simp [hperm.1])) (fun ho => ?_) (h.capacity f), trivial⟩
    exact ⟨hperm.2, (h.live f ho).2⟩
  | write f => exact hrun.elim
  | enableSsl r => exact hrun.elim

/-- A script with fresh read frames and room in what it refuses is a delegate of the read side. -/
theorem Script.readDelegate {script : Script} {calls : List Call → StreamM π Unit}
    (hfetch : script.Fetches Frame.Fresh) (hrefuse : script.Refuses)
    (hcalls : ∀ extra cs, Preserves E (ReadSide extra none) Unrelated (calls cs)) :
    ReadDelegate E (script.delegate calls) where
  preserves extra := by
    refine Script.delegate_preserves (fun w h => ⟨h.tick, trivial⟩) ?_ (hcalls extra)
    intro w f data vecs vecPosition h ho
    exact ⟨h.setFrame (Or.inr rfl) (fun hp => h.live f hp) (h.capacity f), trivial⟩
  fresh g hg extra w h := by
    obtain ⟨g, hgs, rfl⟩ := Option.mem_map.mp hg
    rw [wp_bind, wp_ask]
    rcases hr : g w.clock with ⟨cs, frame⟩
    dsimp only
    rw [wp_bind]
    refine wp_mono (hcalls extra cs _ h.tick) ?_
    rintro _ w₁ ⟨h₁, _⟩
    rw [wp_bind, wp_get]
    cases frame with
    | none => simp
    | some layout =>
      obtain ⟨f, vecs, vecPosition⟩ := layout
      dsimp only
      rw [wp_ite]
      refine ⟨fun ho => ?_, fun _ => by simp⟩
      rw [wp_bind, wp_setFrame, wp_pure]
      intro g' hg'
      obtain rfl := Option.some.inj hg'
      exact ⟨ho, by simpa using hfetch g hgs _ cs f vecs vecPosition hr _ (h₁.capacity f)⟩
  refuse extra w f h ho := by
    change wp E (getFrame f >>= _) _ w
    rw [wp_bind, wp_getFrame, wp_bind, wp_ask]
    rcases hr : script.read f (w.heap f) w.clock with ⟨cs, refused⟩
    dsimp only
    rw [wp_bind]
    refine wp_mono (hcalls extra cs _ h.tick) ?_
    rintro _ w₁ ⟨h₁, _⟩
    rw [wp_bind, wp_get]
    cases refused with
    | none => simp
    | some layout =>
      obtain ⟨vecs, vecPosition⟩ := layout
      dsimp only
      rw [wp_ite]
      refine ⟨fun ho' => ?_, fun _ => by simp⟩
      rw [wp_bind, wp_setFrame, wp_pure]
      refine fun _ => ⟨ho', fun hv => ?_⟩
      have hadd := hrefuse f _ _ cs vecs vecPosition hr hv
      have hcap : (w₁.heap f).capacity = (w.heap f).capacity := by rw [h₁.capacity, h.capacity]
      rw [World.setFrame_heap, Function.update_self]
      exact ⟨hadd.contents, hadd.room.congr rfl rfl hcap⟩

theorem scripted_readDelegate {script : Script} (hE : E (.abort .readPauseLevel))
    (hfetch : script.Fetches Frame.Fresh) (hrefuse : script.Refuses) (n : ℕ) :
    ReadDelegate E (scripted (π := π) env ReadRun script n) := by
  refine Script.readDelegate hfetch hrefuse fun extra cs => ?_
  cases n with
  | zero => exact preserves_pure _
  | succ n => exact preserves_forM fun c _ => call_preserves_readSide env hE c

theorem event_preserves_readInv (hd : ReadDelegate E d) (hE : E (.abort .readPauseLevel))
    (henv : RecvOk env) (e : Event) : Preserves E ReadInv Unrelated (e.exec env d ReadRun) := by
  cases e with
  | call c =>
    rintro w (h | ⟨f, x, h, hx⟩)
    · exact wp_mono (call_preserves_readSide env hE c w h) fun _ _ h' => ⟨Or.inl h'.1, trivial⟩
    · refine wp_mono (call_preserves_readSide env hE c w h) fun _ _ h' => ⟨Or.inr ?_, trivial⟩
      exact ⟨f, x, h'.1, hx⟩
  | read =>
    intro w h
    rw [Event.exec, wp_bind, wp_get, wp_when]
    refine ⟨fun _ => ?_, fun _ => ⟨h, trivial⟩⟩
    exact wp_mono (onRead_wp env hd henv h) fun _ _ h' => ⟨h', trivial⟩
  | write =>
    intro w h
    rw [Event.exec, wp_bind, wp_get, wp_when]
    exact ⟨fun hc => hc.2.elim, fun _ => ⟨h, trivial⟩⟩
  | error =>
    intro w h
    rw [Event.exec, wp_bind, wp_get, wp_when]
    exact ⟨fun hc => hc.2.elim, fun _ => ⟨h, trivial⟩⟩

theorem readSide_init {s : Stream} (hs : s.Established) (hssl : s.ssl = false)
    (hf : s.readFrame = none) (proto : π) (data : FrameId → ℕ → UInt8) :
    ReadSide [] none (World.init s proto data) where
  plain := ⟨hssl, (hs.2.resolve_right (by simp [hssl])).2, hs.1⟩
  bytes := rfl
  within v size bytes hm := by simp [World.init] at hm
  live f hf := absurd rfl hf
  capacity f := rfl
  frame := hf
  held f x h := by simp at h

/-- In every run what was received is what was handed over and what the read frame holds, and no
`recv` was asked to write beyond the limit of a vector. The run can only stop at a resume of a
stream that is not paused. -/
theorem run_received (script : Script) (hfetch : script.Fetches Frame.Fresh)
    (hrefuse : script.Refuses) (henv : RecvOk env) (n : ℕ) {s : Stream} (hs : s.Established)
    (hssl : s.ssl = false) (hf : s.readFrame = none) (proto : π) (data : FrameId → ℕ → UInt8)
    (events : List Event) :
    wp (· = .abort .readPauseLevel) (run env (scripted env ReadRun script n) ReadRun events)
      (fun _ => Received) (World.init s proto data) := by
  have hd := scripted_readDelegate (π := π) (E := (· = .abort .readPauseLevel)) env rfl hfetch
    hrefuse n
  refine wp_mono (preserves_forM (fun e _ => event_preserves_readInv env hd rfl henv e) _
    (Or.inl (readSide_init hs hssl hf proto data))) fun _ w h => h.1.received

end Runs

section Examples

-- the run below a closed precondition is evaluated by the kernel alone
attribute [local irreducible] wp

/-- A system whose `recv` delivers a byte each time, and a pool with one frame. -/
def bytewise (loops : ℕ) : Env :=
  { idleEnv with
    framePool := fun _ => some ⟨0, 0⟩
    sockEstMaxReadLoops := loops
    recv := fun _ n => .data [UInt8.ofNat n] }

/-- A delegate that reads into the listed vectors and refuses a half-filled pair of bytes. -/
def layoutScript (vecs : List Vec) : Script :=
  { idleScript with
    getReadFrame := some fun _ => ([.borrow .rawData], some (⟨0, 0⟩, vecs, 0))
    read := fun _ x _ => ([], if x.vecs = [⟨0, 1, 2, 2⟩] ∧ x.vecPosition = 0 ∧
      x.capacity = FRAME_SIZE then some ([⟨0, 1, 2, 2⟩], 0) else none) }

theorem layoutScript_fetches {ok : Frame → Prop} {vecs : List Vec}
    (h : ∀ x : Frame, x.capacity = FRAME_SIZE → ok { x with vecs, vecPosition := 0 }) :
    (layoutScript vecs).Fetches ok := by
  intro g hg n cs f us vecPosition he
  obtain rfl := Option.some.inj hg
  obtain ⟨-, hl⟩ := Prod.mk.inj he
  obtain ⟨-, hl⟩ := Prod.mk.inj (Option.some.inj hl)
  obtain ⟨rfl, rfl⟩ := Prod.mk.inj hl
  exact h

/-- The one vector of two bytes with its first byte filled has room, in any pool frame. -/
theorem room_pair {x : Frame} (h : x.capacity = FRAME_SIZE) :
    Frame.Room { x with vecs := [⟨0, 1, 2, 2⟩], vecPosition := 0 } := by
  refine ⟨List.pairwise_singleton _ _, ?_, _, [], rfl, by decide, by simp⟩
  simp [Frame.Bounded, Frame.vecLimit, h, FRAME_SIZE, SIZEOF_VEC]

theorem layoutScript_refuses (vecs : List Vec) : (layoutScript vecs).Refuses := by
  intro f x n cs us vecPosition he hne
  obtain ⟨-, hl⟩ := Prod.mk.inj he
  split at hl
  · next h =>
    obtain ⟨rfl, rfl⟩ := Prod.mk.inj (Option.some.inj hl)
    obtain ⟨hv, hp, hc⟩ := h
    refine ⟨?_, ?_, room_pair hc⟩
    · rw [hv]
      exact .cons ⟨rfl, rfl⟩ .nil
    · simp [hv]
  · simp at hl

theorem run_received_pair : wp (· = .abort .readPauseLevel)
    (run (π := Unit) (bytewise 2) (scripted (bytewise 2) ReadRun (layoutScript [⟨0, 0, 2, 2⟩]) 1)
      ReadRun
      [.call (.setPartial true), .read, .read])
    (fun _ => Received) (World.init (opened .accept) () fun _ _ => 0) := by
  refine run_received (bytewise 2) _ (layoutScript_fetches fun x hx => ?_) (layoutScript_refuses _)
    (by simp [RecvOk, bytewise]) 1 (by decide) rfl rfl () _ _
  refine ⟨⟨List.pairwise_singleton _ _, ?_, _, [], rfl, by decide, by simp⟩, by simp⟩
  simp [Frame.Bounded, Frame.vecLimit, hx, FRAME_SIZE, SIZEOF_VEC]

/-- Reading with frames as `ok` says hands over what is received. -/
def HandsOver (ok : Frame → Prop) : Prop :=
  ∀ (env : Env) (script : Script), script.Fetches ok → script.Refuses → RecvOk env →
    ∀ (n : ℕ) (s : Stream), s.Established → s.ssl = false → s.readFrame = none →
      ∀ (data : FrameId → ℕ → UInt8) (events : List Event),
        wp (· = .abort .readPauseLevel)
          (run (π := Unit) env (scripted env ReadRun script n) ReadRun events)
          (fun _ => Received) (World.init s () data)

/-- Two vectors over the same byte lose the first of two bytes, and a vector that was filled before
hands over a byte that was never received. -/
theorem not_handsOver_all :
    ¬HandsOver (fun x => x.Bounded ∧ x.vecPosition = 0 ∧ x.vecs ≠ [] ∧
      ∀ v ∈ x.vecs, v.position = 0 ∧ 0 < v.limit) ∧ ¬HandsOver Frame.Room := by
  refine ⟨fun h => ?_, fun h => ?_⟩
  · have h := h (bytewise 2) (layoutScript [⟨0, 0, 1, 1⟩, ⟨0, 0, 1, 1⟩])
      (layoutScript_fetches fun x hx => ?_) (layoutScript_refuses _) (by simp [RecvOk, bytewise])
      1 (opened .accept) (by decide) rfl rfl (fun _ _ => 0) [.read]
    · obtain ⟨_, w, ⟨hb, _⟩, hw⟩ := wp_observe h
        (g := fun r => (recvBytes r.2.trace, handedBytes r.2.trace, r.2.socket.readFrame))
        (b := ([2, 3], [3, 3], none)) (by decide +kernel)
      simp only [Prod.mk.injEq] at hw
      simp [hw.1, hw.2.1, hw.2.2] at hb
    · simp [Frame.Bounded, Frame.vecLimit, hx, FRAME_SIZE, SIZEOF_VEC]
  · have h := h (bytewise 1) (layoutScript [⟨0, 1, 2, 2⟩]) (layoutScript_fetches fun _ => room_pair)
      (layoutScript_refuses _) (by simp [RecvOk, bytewise]) 1 (opened .accept) (by decide) rfl rfl
      (fun _ _ => 9) [.read]
    obtain ⟨_, w, ⟨hb, _⟩, hw⟩ := wp_observe h
      (g := fun r => (recvBytes r.2.trace, handedBytes r.2.trace, r.2.socket.readFrame))
      (b := ([2], [9, 2], none)) (by decide +kernel)
    simp only [Prod.mk.injEq] at hw
    simp [hw.1, hw.2.1, hw.2.2] at hb

end Examples

end Stream

end FrameTransporter
