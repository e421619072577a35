import FrameTransporter.Proto.Socks.Bounds

/-! # The next byte of a message

The reader asserts that there is a vector under the cursor and room in it. After a call
of `read` that wants more bytes both hold as long as the delegate had room for what it
asked for. It checks neither the size of a host vector that it could not append nor
a name of length zero.
-/

namespace FrameTransporter

open Hoare Intrusive

/-- The vector under the cursor has room for a byte. -/
def Frame.Fillable (x : Frame) : Prop := ∃ v, x.getVec = .ok (some v) ∧ v.position < v.limit

instance (x : Frame) : Decidable x.Fillable :=
  decidable_of_iff (∃ v ∈ x.getVec.toOption.join, v.position < v.limit) (by
    unfold Frame.Fillable
    rcases x.getVec with e | v
    · simp [Except.toOption]
    · simp [Except.toOption])

theorem Frame.Fillable.of_vecs {x y : Frame} (h : x.Fillable) (hv : y.vecs = x.vecs)
    (hp : y.vecPosition = x.vecPosition) : y.Fillable := by
  obtain ⟨v, hvec, hlt⟩ := h
  refine ⟨v, ?_, hlt⟩
  rw [← hvec]
  unfold Frame.getVec Frame.vecLimit
  rw [hv, hp]

namespace Socks

open FrameTransporter.Stream ReadEvent

/-- The call leaves a frame whose vector under the cursor has room for a byte. -/
def Call.Continues (c : Call) : Prop :=
  Frame.Fillable { c.frame with vecs := c.vecs, vecPosition := c.vecPosition }

/-- There is room for what the delegate asks for: for one more byte of a text of SOCKS4 that goes
on, for the first byte of a host, and a name has at least one byte. A text or a length that goes on
was not cut off by the end of reading. -/
structure Call.Ample (c : Call) : Prop where
  text : c.socks.VN = 4 → 3 ≤ c.frame.vecLimit → c.frame.contents.getLast? ≠ some 0 →
    c.frame.vecPosition = c.frame.vecLimit ∧
      (c.frame.vecs.map Vec.capacity).sum + 1 + SIZEOF_VEC * c.frame.vecLimit ≤ c.frame.capacity
  host : c.socks.VN = 4 → c.socks.Socks4A → c.frame.vecLimit = 3 →
    c.frame.contents.getLast? = some 0 →
      (c.frame.vecs.map Vec.capacity).sum + 1 + SIZEOF_VEC * (c.frame.vecLimit + 1) ≤
        c.frame.capacity
  name : Authorized c.socks → c.socks.ATYP = 3 → c.frame.vecLimit = 3 →
    (c.frame.vecs.getLast?.map Vec.capacity) = some 1 →
      c.frame.vecPosition = c.frame.vecLimit ∧ c.frame.contents.getLast? ≠ some 0

instance (c : Call) : Decidable c.Continues := inferInstanceAs (Decidable (Frame.Fillable _))

instance (this : Socks) : Decidable (Authorized this) :=
  decidable_of_iff (this.VN = 5 ∧ this.authorized = true)
    ⟨fun h => ⟨h.1, h.2⟩, fun h => ⟨h.VN, h.authorized⟩⟩

set_option synthInstance.maxSize 512 in
instance (c : Call) : Decidable c.Ample :=
  decidable_of_iff (_ ∧ _ ∧ _) ⟨fun h => ⟨h.1, h.2.1, h.2.2⟩, fun h => ⟨h.text, h.host, h.name⟩⟩

section Calls

variable {c : Call} {p : Parser} {x y : Frame} {position : ℕ}

theorem Call.Ample.roomy (h : c.Ample) : c.Roomy := fun h4 hl hlast => (h.text h4 hl hlast).2

namespace Call.Stacked

theorem getLast?_vecs (h : c.Stacked p position) :
    c.frame.vecs.getLast? = some ⟨p.fields.flatten.length, position, p.room, p.room⟩ := by
  rw [h.vecs, List.getLast?_concat]

/-- There is room for the vector that is appended. -/
theorem append_fits (h : c.Stacked p position) (ha : c.Ample) {n : ℕ} (hn : n < 2 ^ 8)
    (hfour : c.socks.VN = 4 → c.frame.vecLimit = 2 ∨ n = 1 ∧ HostBegins c.socks c.frame) :
    p.fields.flatten.length + p.room + n + SIZEOF_VEC * (p.fields.length + 2) ≤ FRAME_SIZE := by
  have hlim := h.vecLimit
  have hgood := h.good
  have hsocks := h.socks
  by_cases hu : p.phase = .userid
  · have hlast := h.last
    have hvec := h.vecAt
    have hsum := h.sum_capacity
    obtain ⟨this, phase, fields, part, room⟩ := p
    dsimp only at hu hlim hsocks hlast hvec hsum ⊢
    subst hu
    obtain ⟨⟨header, hh, hf⟩, -⟩ := hgood
    have hf : fields = [[4], header] := hf
    have h4 : c.socks.VN = 4 := hsocks ▸ hh.VN
    have hthree : c.frame.vecLimit = 3 := by rw [hlim, hf]; rfl
    rcases hfour h4 with htwo | ⟨rfl, -, h4a, v, hv, h0⟩
    · exact absurd (hthree.symm.trans htwo) (by decide)
    · have htwo : fields.length = 2 := by rw [hf]; rfl
      rw [← htwo, hvec] at hv
      cases hv
      have hroom := ha.host h4 h4a hthree (hlast.trans (congrArg some h0))
      rw [hsum, hthree, h.capacity] at hroom
      rwa [htwo]
  · by_cases hh : p.phase = .host
    · obtain ⟨this, phase, fields, part, room⟩ := p
      dsimp only at hh hlim hsocks
      subst hh
      obtain ⟨⟨header, userid, hh, -, -, hf⟩, -⟩ := hgood
      have hf : fields = [[4], header, userid ++ [0]] := hf
      have hlim : c.frame.vecLimit = 4 := by rw [hlim, hf]; rfl
      rcases hfour (hsocks ▸ hh.VN) with htwo | ⟨-, hthree, -⟩
      · exact absurd (hlim.symm.trans htwo) (by decide)
      · exact absurd (hlim.symm.trans hthree) (by decide)
    · have hsmall := hgood.small (fun hp => absurd hp hu) hh
      simp only [SIZEOF_VEC, FRAME_SIZE]
      omega

/-- A vector that was cut off has room, or it is the length of a name. -/
theorem cut_lt (h : c.Stacked p position) (ha : c.Ample)
    (hcur : c.frame.vecPosition = p.fields.length) : p.part.length < p.room := by
  by_cases hp : p.phase = .name
  · have hname := ha.name
    have hlim := h.vecLimit
    have hsocks := h.socks
    have hgood := h.good
    rw [h.getLast?_vecs, hlim, hcur, hsocks] at hname
    obtain ⟨this, phase, fields, part, room⟩ := p
    dsimp only at hp hname
    subst hp
    obtain ⟨hauth, ⟨v, r, hf⟩, h3, n, rest, hpart, hroom, hlt | ⟨rfl, -⟩⟩ := hgood
    · dsimp only at hpart hroom ⊢
      rw [hpart, hroom, List.length_cons]
      omega
    · have hf : fields = [[v], [this.CD, r, 3]] := hf
      have hroom : room = 1 := hroom
      rw [hf, hroom] at hname
      exact absurd (hname hauth h3 rfl rfl).1 (Nat.lt_succ_self _).ne
  · exact h.good.lt_room hp

/-- The last vector was enlarged, and the cursor went back to it. -/
theorem grown_fillable (h : c.Stacked p position) {n : ℕ} (h0 : 0 < n)
    (hcur : c.frame.vecPosition = c.frame.vecLimit) (hn : p.room + n < 2 ^ 16) :
    (c.frame.prevVec.modifyVec p.fields.length (grow n)).Fillable := by
  rw [h.vecLimit] at hcur
  have hpos : position = p.room := by
    rcases h.cursor with ⟨-, hpos⟩ | ⟨hcut, -⟩
    · exact hpos
    · exact absurd (hcut.symm.trans hcur) (Nat.lt_succ_self _).ne
  have hprev : c.frame.prevVec.vecPosition = p.fields.length := by
    rw [Frame.prevVec, if_neg (by omega), hcur]
    rfl
  have hdrop : (c.frame.prevVec.modifyVec p.fields.length (grow n)).vecs.drop
      (c.frame.prevVec.modifyVec p.fields.length (grow n)).vecPosition =
        [grow n ⟨p.fields.flatten.length, position, p.room, p.room⟩] := by
    rw [h.vecs_grown]
    exact List.drop_left' ((length_layout _ _).trans hprev.symm)
  refine ⟨_, Frame.getVec_of_drop hdrop, ?_⟩
  dsimp only [grow]
  rw [hpos, u16, Nat.mod_eq_of_lt hn]
  omega

/-- A vector was appended. The cursor is on it, or on a vector that was cut off. -/
theorem appended_fillable (h : c.Stacked p position) {n : ℕ} {r : Option ℕ} (h0 : 0 < n)
    (hfits : p.fields.flatten.length + p.room + n + SIZEOF_VEC * (p.fields.length + 2) ≤ FRAME_SIZE)
    (hcut : c.frame.vecPosition = p.fields.length → p.part.length < p.room)
    (ha : c.frame.appendVec n = .ok (r, y)) : y.Fillable := by
  have hroom := h.room
  simp only [FRAME_SIZE, SIZEOF_VEC] at hfits hroom
  rcases Frame.createVec_ok ha with ⟨-, -, hnone⟩ | ⟨-, rfl, -⟩
  · rw [hroom, h.appendOffset, u64, Nat.mod_eq_of_lt (by omega), toSize, if_pos (by omega)] at hnone
    omega
  · have hlen : (layout 0 p.fields).length = p.fields.length := length_layout _ _
    rcases h.cursor with ⟨hcur, -⟩ | ⟨hcur, rfl⟩
    · have hdrop : (c.frame.push c.frame.appendOffset n).vecs.drop c.frame.vecPosition =
          [⟨u16 c.frame.appendOffset, 0, u16 n, u16 n⟩] :=
        List.drop_left' (h.vecLimit.trans hcur.symm)
      refine ⟨_, Frame.getVec_of_drop hdrop, ?_⟩
      dsimp only
      rw [u16, Nat.mod_eq_of_lt (by omega)]
      exact h0
    · have hdrop : (c.frame.push c.frame.appendOffset n).vecs.drop c.frame.vecPosition =
          ⟨p.fields.flatten.length, p.part.length, p.room, p.room⟩ ::
            [⟨u16 c.frame.appendOffset, 0, u16 n, u16 n⟩] := by
        rw [Frame.push, h.vecs, List.append_assoc]
        exact List.drop_left' (hlen.trans hcur.symm)
      exact ⟨_, Frame.getVec_of_drop hdrop, hcut hcur⟩

/-- What the delegate leaves is fillable if there was room for what it asked for. -/
theorem fillable (h : c.Stacked p position) (ha : c.Ample) (hw : Widened c.socks c.frame y) :
    y.Fillable := by
  have hlim := h.vecLimit
  have hvec := h.vecAt
  have hfits := h.fits_frame
  simp only [FRAME_SIZE, SIZEOF_VEC] at hfits
  cases hw with
  | @appended n r h0 hlt four append =>
    exact h.appended_fillable h0 (h.append_fits ha hlt four) (h.cut_lt ha) append
  | @text i v four limit behind vec last eq =>
    obtain rfl : p.fields.length = i := Nat.succ_injective (hlim.symm.trans limit)
    rw [hvec] at vec
    cases vec
    obtain ⟨hcur, hroom⟩ := ha.text four (limit ▸ Nat.succ_le_succ behind) fun hlast => by
      rw [h.last] at hlast
      exact last (Option.some.inj hlast)
    exact eq ▸ h.grown_fillable Nat.zero_lt_one hcur (by omega)
  | @name v auth limit ATYP vec one eq =>
    have htwo : p.fields.length = 2 := Nat.succ_injective (hlim.symm.trans limit)
    rw [← htwo, hvec] at vec
    cases vec
    have hone : p.room = 1 := one
    obtain ⟨hcur, hlast⟩ :=
      ha.name auth ATYP limit (by rw [h.getLast?_vecs]; exact congrArg some hone)
    rw [h.last] at hlast
    rw [← htwo] at eq
    dsimp only at eq
    generalize c.frame.data (p.fields.flatten.length + position - 1) = b at eq hlast
    have hlt := b.toNat_lt
    have hb : b ≠ 0 := fun hb => hlast (congrArg some hb)
    have hpos : 0 < b.toNat := Nat.pos_of_ne_zero fun h0 => hb (UInt8.toNat_inj.mp h0)
    exact eq ▸ h.grown_fillable hpos hcur (by omega)

end Call.Stacked

end Calls

/-- What is known in a run, and that the read frame takes a byte. -/
structure Sim.Fed (A : Answers) (g : Bool) (ATYP : UInt8) (p : Session)
    (ins : List (Option UInt8)) (o : Option Frame) : Prop extends Sim A g ATYP p ins o where
  fillable : (∀ c ∈ p.calls, c.Ample) → ∀ x, o = some x → x.Fillable

section Feeding

variable {env : Env} {connect : Connect} {A : Answers} {g : Bool} {ATYP : UInt8} {p : Session}
  {ins : List (Option UInt8)} {o : Option Frame} {w w' : World Stream Session} {c : Call}

theorem Sim.continues (h : Sim A g ATYP p ins o) (ha : ∀ c ∈ p.calls, c.Ample) {c : Call}
    (hmem : c ∈ p.calls) (htaken : c.taken = false) : c.Continues := by
  obtain ⟨pre, post, hs⟩ := List.append_of_mem hmem
  have hran := h.ran c hmem
  have ht := hran.type_of_more htaken
  have hpre : ∀ a ∈ pre, a.Roomy := fun a hp => (ha a (hs ▸ List.mem_append_left _ hp)).roomy
  obtain ⟨p, position, hstacked⟩ := (h.seen pre c post hs hpre).known.stacked ht
  cases hran with
  | ended type => exact absurd type ht
  | done _ _ taken => exact absurd (htaken.symm.trans taken) (by decide)
  | more _ decision _ _ vecs vecPosition =>
    have hfill := hstacked.fillable (ha c hmem) (widens_onRead _ _ (onRead_more decision))
    exact hfill.of_vecs vecs vecPosition

/-- The frame of a call that wants more bytes, after it. -/
theorem Noted.fillable (hn : Noted A w c w') (htaken : c.taken = false) (hc : c.Continues) :
    (w'.heap c.id).Fillable := by
  have ht := hn.ran.type_of_more htaken
  obtain ⟨y, v, hd, hv, hheap⟩ := hn.decided ht
  cases hn.ran with
  | ended type => exact absurd type ht
  | done _ _ taken => exact absurd (htaken.symm.trans taken) (by decide)
  | more _ decision _ _ vecs vecPosition =>
    cases hd.symm.trans decision
    rw [hheap rfl]
    exact hc.of_vecs vecs.symm vecPosition.symm

theorem Sim.fed (h : Sim A g ATYP p ins none) : Sim.Fed A g ATYP p ins none :=
  ⟨h, fun _ _ hx => by cases hx⟩

/-- The delegate keeps it. -/
theorem feeder_fed (hA : ∀ t h p n, A t h p (connect t h p n))
    (hd : Feeder (Going g) (Sim A g ATYP) (delegate env connect)) :
    Feeder (Going g) (Sim.Fed A g ATYP) (delegate env connect) where
  onError := hd.onError
  onReturn := hd.onReturn
  fetch := by
    obtain ⟨_, ⟨⟩, hfetch⟩ := hd.fetch
    refine ⟨getReadFrame env, rfl, fun w h hg hj => ?_⟩
    refine wp_mono (wp_and (hfetch w h hg hj.toSim) (getReadFrame_holds h)) ?_
    rintro r w' ⟨⟨h', k, hj'⟩, -, -, hh⟩
    refine ⟨h', k, hj', fun _ x hx => ?_⟩
    obtain ⟨f, rfl, rfl⟩ := Option.map_eq_some_iff.mp hx
    exact ⟨_, (hh f rfl).getVec, Nat.zero_lt_one⟩
  store hg hj hv hb := by
    refine ⟨hd.store hg hj.toSim hv hb, fun ha => ?_⟩
    obtain ⟨q, -, -, hf, -⟩ := hj.tracks fun c hc => (ha c hc).roomy
    obtain ⟨hh, -, rfl⟩ := hf.getVec hv
    rintro _ ⟨⟩
    exact ⟨_, hh.store.getVec, (List.length_append ..).trans_lt hb⟩
  next hg hj hv hl hn := by
    refine ⟨hd.next hg hj.toSim hv hl hn, fun ha => ?_⟩
    obtain ⟨q, -, -, hf, -⟩ := hj.tracks fun c hc => (ha c hc).roomy
    obtain ⟨hh, -, -⟩ := hf.getVec hv
    exact absurd (by rw [hh.vecLimit, hh.cursor]) hn
  read := hd.read
  filled w f h hg hj hv hpos hl hlast hi hx := by
    have hkeep := hd.filled w f h hg hj.toSim hv hpos hl hlast hi hx
    refine wp_mono (wp_and hkeep (noted_read hA h f)) ?_
    rintro taken w' ⟨hj', c, rfl, rfl, hn⟩
    refine ⟨hj', fun ha x hx => ?_⟩
    split at hx
    · cases hx
    · next hfalse =>
      cases hx
      have htaken := Bool.eq_false_of_not_eq_true hfalse
      exact hn.fillable htaken (hj'.continues ha (hn.calls ▸ by simp) htaken)
  cut w f h hj hpos := by
    refine wp_mono (hd.cut w f h hj.toSim hpos) fun _ w' hcut ins hp hm => ?_
    exact (hcut ins hp hm).fed
  forget hj ins hp hm := (hd.forget hj.toSim ins hp hm).fed
  ended w f h hj ht hm := by
    exact wp_mono (hd.ended w f h hj.toSim ht hm) fun _ w' h' => h'.fed

theorem feeds_fed (o : Opening) (data : FrameId → ℕ → UInt8) :
    Feeds (Going g) (Sim.Fed A g ATYP) (accepted o ATYP data) := by
  have hf : (accepted o ATYP data).socket.readFrame = none := by cases o <;> rfl
  obtain ⟨hsizes, hwhole, hgoing, hknown⟩ := feeds_accepted (A := A) o data
  refine ⟨hsizes, hwhole, hgoing, ?_⟩
  rw [hf] at hknown ⊢
  exact hknown.fed

end Feeding

section Runs

variable {A : Answers} {g : Bool} {ATYP : UInt8} {w : World Stream Session}

theorem Reaches.fed (h : Reaches A g ATYP w) : Feeds (Going g) (Sim.Fed A g ATYP) w :=
  h.keeps (fun _ _ hA => feeder_fed hA (feeder hA)) feeds_fed

/-- As long as there is room for what the delegate asks for, each call of `read` that wants more
bytes leaves a vector with room for a byte under the cursor, and so the reader finds one whenever
there is a read frame. -/
theorem read_progress (h : Reaches A g ATYP w) (ha : ∀ c ∈ w.proto.calls, c.Ample) :
    (∀ c ∈ w.proto.calls, c.taken = false → c.Continues) ∧
      ∀ f, w.socket.readFrame = some f → (w.heap f).Fillable := by
  refine ⟨fun c hmem htaken => h.feeds.known.continues ha hmem htaken, fun f hf => ?_⟩
  exact h.fed.known.fillable ha _ (by rw [hf]; rfl)

/-- A name of two letters is being read. -/
theorem read_progress_name : ∃ w, Reaches anyAnswer true 0 w ∧
    (∃ c ∈ w.proto.calls, c.taken = false ∧ c.Continues) ∧
      ∃ f, w.socket.readFrame = some f ∧ (w.heap f).Fillable := by
  obtain ⟨w, hw, ho⟩ := sends_observe anyAnswer (fun _ _ _ _ => true) (fun _ _ _ _ => trivial)
    [[5], [1], [0], [5], [1, 0, 3], [2], [97]] (fun _ _ => 0) (fun w => (w.socket.readFrame,
      decide ((∀ c ∈ w.proto.calls, c.Ample) ∧ ∃ c ∈ w.proto.calls, c.taken = false)))
    (some ⟨0, 4⟩, true) (by decide +kernel)
  obtain ⟨hf, ho⟩ := Prod.mk.inj ho
  obtain ⟨ha, c, hmem, htaken⟩ := of_decide_eq_true ho
  obtain ⟨hcalls, hframe⟩ := read_progress hw ha
  exact ⟨w, hw, ⟨c, hmem, htaken, hcalls c hmem htaken⟩, _, hf, hframe _ hf⟩

/-- A name of length zero, after which the next read event stops at an assertion. -/
theorem not_read_progress : ∃ w, Reaches anyAnswer true 0 w ∧
    inputs w.trace = [5, 1, 0, 5, 1, 0, 3, 0].map some ∧
    (∃ c ∈ w.proto.calls, c.taken = false ∧ ¬c.Continues) ∧
      faultOf (onReadEvent (clientEnv [80]) (delegate (clientEnv [80]) fun _ _ _ _ => true) w) =
        some (.abort .sizeToRead) := by
  obtain ⟨w, hw, ho⟩ := sends_observe anyAnswer (fun _ _ _ _ => true) (fun _ _ _ _ => trivial)
    [[5], [1], [0], [5], [1, 0, 3], [0]] (fun _ _ => 0) (fun w => (inputs w.trace,
      decide (∃ c ∈ w.proto.calls, c.taken = false ∧ ¬c.Continues),
      faultOf (onReadEvent (clientEnv [80]) (delegate (clientEnv [80]) fun _ _ _ _ => true) w)))
    ([5, 1, 0, 5, 1, 0, 3, 0].map some, true, some (.abort .sizeToRead)) (by decide +kernel)
  obtain ⟨hin, ho⟩ := Prod.mk.inj ho
  obtain ⟨hc, hfault⟩ := Prod.mk.inj ho
  exact ⟨w, hw, hin, of_decide_eq_true hc, hfault⟩

end Runs

end Socks

end FrameTransporter
