import Mathlib.Data.List.GetD
import Mathlib.Data.List.TakeWhile
import FrameTransporter.Proto.Socks.Parser

/-! # The delegate follows the parser

The vectors of a read frame lie one behind the other, one for each field. When the
frame is full, what the delegate finds in it is what the parser knows of the bytes,
and the delegate goes on as the parser does.
-/

namespace FrameTransporter

open Intrusive

namespace Socks

/-- What `read` decides for a data frame: the protocol and the frame after it, and the verdict if
it does not want more bytes. -/
def decision (this : Socks) (frame : Frame) :
    Except Fault (Socks × Frame × Option Verdict) := do
  let (this, frame, outcome) ← onRead this frame
  match outcome with
  | .more => return (this, frame, none)
  | .request =>
    if this.CD ≠ 1 then return (this, frame, some (.request none))
    else
      let (this, r) ← target this frame
      return (this, frame, some (.request (r.filter fun t => t.2.1 ≠ [])))
  | .select =>
    let v ← vecAt frame 2
    if this.SELMETHOD ≠ 0xFF then throw (.abort .selMethod)
    else if 0 ∈ frame.receivedBytes v then
      return ({ this with SELMETHOD := 0, authorized := true }, frame, some (.select 0))
    else return (this, frame, some (.select 0xFF))
  | .fail => return (this, frame, some .close)

/-- The vectors of full fields from an offset on. -/
def layout : ℕ → List (List UInt8) → List Vec
  | _, [] => []
  | off, field :: fields =>
    ⟨off, field.length, field.length, field.length⟩ :: layout (off + field.length) fields

theorem length_layout (off : ℕ) (fields : List (List UInt8)) :
    (layout off fields).length = fields.length := by
  induction fields generalizing off with
  | nil => rfl
  | cons field fields ih => rw [layout, List.length_cons, List.length_cons, ih]

theorem layout_append (off : ℕ) (fields fields' : List (List UInt8)) :
    layout off (fields ++ fields') =
      layout off fields ++ layout (off + fields.flatten.length) fields' := by
  induction fields generalizing off with
  | nil => simp [layout]
  | cons field fields ih => simp [layout, ih, Nat.add_assoc]

/-- A frame that is full of the listed fields. -/
structure Full (fields : List (List UInt8)) (x : Frame) : Prop where
  vecs : x.vecs = layout 0 fields
  cursor : x.vecPosition = fields.length
  data : slice x.data 0 fields.flatten.length = fields.flatten
  capacity : x.capacity = FRAME_SIZE
  type : x.type ≠ .endOfStream

/-- The frame of a parser between two calls of `read`. -/
structure Holds (p : Parser) (x : Frame) : Prop where
  vecs : x.vecs =
    layout 0 p.fields ++ [⟨p.fields.flatten.length, p.part.length, p.room, p.room⟩]
  cursor : x.vecPosition = p.fields.length
  data : slice x.data 0 p.bytes.length = p.bytes
  capacity : x.capacity = FRAME_SIZE
  type : x.type ≠ .endOfStream

section Fields

variable {x : Frame} (fields post : List (List UInt8)) (i : ℕ) {field : List UInt8}

theorem data_of_slice {mem : ℕ → UInt8} {bytes : List UInt8} {i : ℕ}
    (h : slice mem 0 bytes.length = bytes) (hi : i < bytes.length) : mem i = memory bytes i := by
  have hget : (slice mem 0 bytes.length)[i]? = bytes[i]? := by rw [h]
  rw [slice, List.getElem?_map, List.getElem?_range hi] at hget
  rw [memory, List.getD, ← hget]
  simp

/-- A full frame has the bytes of each field. -/
theorem Full.data_at (h : Full (fields ++ field :: post) x) (hi : i < field.length) :
    x.data (fields.flatten.length + i) = memory field i := by
  have hlen : fields.flatten.length + i < (fields ++ field :: post).flatten.length := by
    simp only [List.flatten_append, List.flatten_cons, List.length_append]
    omega
  rw [data_of_slice h.data hlen]
  simp [memory, List.getElem?_append_right, List.getElem?_append_left hi]

theorem Full.slice_at (h : Full (fields ++ field :: post) x) :
    slice x.data fields.flatten.length field.length = field := by
  refine List.ext_getElem (by simp) fun i h₁ h₂ => ?_
  simp only [slice, List.getElem_map, List.getElem_range]
  rw [h.data_at _ _ _ h₂, memory, List.getD_eq_getElem _ _ h₂]

theorem loadU16_congr {mem mem' : ℕ → UInt8} {c c' : ℕ} (h : ∀ i < 2, mem (c + i) = mem' (c' + i)) :
    loadU16 mem c = loadU16 mem' c' := by
  have h0 := h 0 (by decide)
  simp only [Nat.add_zero] at h0
  rw [loadU16, loadU16, h 1 (by decide), h0]

theorem loadU32_congr {mem mem' : ℕ → UInt8} {c c' : ℕ} (h : ∀ i < 4, mem (c + i) = mem' (c' + i)) :
    loadU32 mem c = loadU32 mem' c' := by
  have h0 := h 0 (by decide)
  simp only [Nat.add_zero] at h0
  rw [loadU32, loadU32, h 1 (by decide), h 2 (by decide), h 3 (by decide), h0]

theorem Full.load16 (h : Full (fields ++ field :: post) x) (hi : i + 1 < field.length) :
    loadU16 x.data (fields.flatten.length + i) = loadU16 (memory field) i :=
  loadU16_congr fun j hj => by rw [Nat.add_assoc, h.data_at _ _ _ (by omega)]

theorem Full.load32 (h : Full (fields ++ field :: post) x) (hi : i + 3 < field.length) :
    loadU32 x.data (fields.flatten.length + i) = loadU32 (memory field) i :=
  loadU32_congr fun j hj => by rw [Nat.add_assoc, h.data_at _ _ _ (by omega)]

/-- The last byte of a field. -/
theorem Full.last (h : Full (fields ++ field :: post) x) (hne : field ≠ []) :
    some (x.data (fields.flatten.length + field.length - 1)) = field.getLast? := by
  have hpos := List.length_pos_iff.mpr hne
  rw [Nat.add_sub_assoc hpos, h.data_at _ _ _ (by omega), memory, List.getLast?_eq_getElem?,
    List.getD_eq_getElem _ _ (by omega), List.getElem?_eq_getElem (by omega)]

theorem Full.vecLimit {fields : List (List UInt8)} (h : Full fields x) :
    x.vecLimit = fields.length := by
  rw [Frame.vecLimit, h.vecs, length_layout]

theorem Full.vecAt (h : Full (fields ++ field :: post) x) : vecAt x fields.length =
    .ok ⟨fields.flatten.length, field.length, field.length, field.length⟩ := by
  have hget : x.vecs[fields.length]? =
      some ⟨fields.flatten.length, field.length, field.length, field.length⟩ := by
    rw [h.vecs, layout_append, List.getElem?_append_right (length_layout _ _).le, length_layout]
    simp [layout]
  rw [Socks.vecAt, hget]

end Fields

/-- The delegate goes on as the parser does; `i` is the index of the last vector. -/
def Follows (this : Socks) (x : Frame) (i : ℕ) : Next → Prop
  | .append _ this' n => decision this x = do
    let (_, y) ← x.appendVec n
    return (this', y, none)
  | .grow _ n => decision this x = .ok (this, x.prevVec.modifyVec i (grow n), none)
  | .done this' v => decision this x = .ok (this', x, some v)

section Equations

variable {x : Frame} {this : Socks} {v : Vec}

theorem onRead_four (h4 : this.VN = 4) : onRead this x = socks4OnRead this x := by
  rw [onRead, if_neg (fun h => by simp [h4] at h), if_pos h4]

theorem onRead_five (h5 : this.VN = 5) : onRead this x = socks5OnRead this x := by
  rw [onRead, if_neg (fun h => by simp [h5] at h), if_neg (by rw [h5]; decide), if_pos h5]

theorem onRead_header4 (h4 : this.VN = 4) (hl : x.vecLimit = 2) (hv : vecAt x 1 = .ok v) :
    onRead this x = do
      let (_, y) ← x.appendVec 1
      return ({ this with
        CD := x.data v.offset
        DSTPORT := loadU16 x.data (v.offset + 1)
        DSTIP := loadU32 x.data (v.offset + 3) }, y, .more) := by
  rw [onRead_four h4, socks4OnRead, hl]
  refine (if_pos h4).trans ?_
  rw [hv]
  rfl

theorem onRead_userid (h4 : this.VN = 4) (hl : x.vecLimit = 3) (hv : vecAt x 2 = .ok v) :
    onRead this x =
      if x.data (v.offset + v.position - 1) = 0 then
        if this.Socks4A then do
          let (_, y) ← x.appendVec 1
          return (this, y, .more)
        else .ok (this, x, .request)
      else .ok (this, x.prevVec.modifyVec 2 (grow 1), .more) := by
  rw [onRead_four h4, socks4OnRead, hl]
  refine (if_pos h4).trans ?_
  rw [hv]
  rfl

theorem onRead_host (h4 : this.VN = 4) (ha : this.Socks4A) (hl : x.vecLimit = 4)
    (hv : vecAt x 3 = .ok v) :
    onRead this x =
      if x.data (v.offset + v.position - 1) = 0 then .ok (this, x, .request)
      else .ok (this, x.prevVec.modifyVec 3 (grow 1), .more) := by
  rw [onRead_four h4, socks4OnRead, hl]
  refine (if_pos ⟨h4, ha⟩).trans ?_
  rw [hv]
  rfl

theorem onRead_nmethods (hg : Greeted this) (hl : x.vecLimit = 2) (hv : vecAt x 1 = .ok v) :
    onRead this x =
      if x.data v.offset = 0 then .ok (this, x, .fail)
      else do
        let (_, y) ← x.appendVec (x.data v.offset).toNat
        return (this, y, .more) := by
  rw [onRead_five hg.VN, socks5OnRead, if_pos hg.authorized, if_pos hg.SELMETHOD, hl]
  change (do let v ← vecAt x 1; _) = _
  rw [hv]
  rfl

theorem onRead_methods (hg : Greeted this) (hl : x.vecLimit = 3) :
    onRead this x = .ok (this, x, .select) := by
  rw [onRead_five hg.VN, socks5OnRead, if_pos hg.authorized, if_pos hg.SELMETHOD, hl]
  rfl

theorem onRead_authorized (ha : Authorized this) (hl : x.vecLimit = 1) :
    onRead this x = do
      let (_, y) ← x.appendVec 3
      return (this, y, .more) := by
  rw [onRead_five ha.VN, socks5OnRead, if_neg (by simp [ha.authorized]), hl]
  rfl

theorem onRead_header5 (ha : Authorized this) (hl : x.vecLimit = 2) (hv : vecAt x 1 = .ok v) :
    onRead this x =
      let this := { this with CD := x.data v.offset, ATYP := x.data (v.offset + 2) }
      if x.data (v.offset + 2) = 1 then do
        let (_, y) ← x.appendVec 4
        return (this, y, .more)
      else if x.data (v.offset + 2) = 3 then do
        let (_, y) ← x.appendVec 1
        return (this, y, .more)
      else if x.data (v.offset + 2) = 4 then do
        let (_, y) ← x.appendVec 16
        return (this, y, .more)
      else .ok (this, x, .fail) := by
  rw [onRead_five ha.VN, socks5OnRead, if_neg (by simp [ha.authorized]), hl]
  change (do let v ← vecAt x 1; _) = _
  rw [hv]
  rfl

theorem onRead_address (ha : Authorized this) (hl : x.vecLimit = 3) (hv : vecAt x 2 = .ok v) :
    onRead this x =
      if this.ATYP = 3 ∧ v.capacity = 1 then
        .ok (this, x.prevVec.modifyVec 2 (grow (x.data (v.offset + v.position - 1)).toNat), .more)
      else do
        let (_, y) ← x.appendVec 2
        return (this, y, .more) := by
  rw [onRead_five ha.VN, socks5OnRead, if_neg (by simp [ha.authorized]), hl]
  change (do let v ← vecAt x 2; _) = _
  rw [hv]
  rfl

theorem onRead_port (ha : Authorized this) (hl : x.vecLimit = 4) (hv : vecAt x 3 = .ok v) :
    onRead this x =
      .ok ({ this with DSTPORT := loadU16 x.data v.offset }, x, .request) := by
  rw [onRead_five ha.VN, socks5OnRead, if_neg (by simp [ha.authorized]), hl]
  change (do let v ← vecAt x 3; _) = _
  rw [hv]
  rfl

end Equations

section Phases

variable {x : Frame} {fields : List (List UInt8)} {last : List UInt8} {this : Socks} {i : ℕ}

theorem decision_append {this' : Socks} {n : ℕ}
    (h : onRead this x = do
      let (_, y) ← x.appendVec n
      return (this', y, .more)) :
    decision this x = do
      let (_, y) ← x.appendVec n
      return (this', y, none) := by
  rw [decision, h]
  cases x.appendVec n <;> rfl

theorem decision_grow {y : Frame} (h : onRead this x = .ok (this, y, .more)) :
    decision this x = .ok (this, y, none) := by
  rw [decision, h]
  rfl

theorem decision_fail {this' : Socks} (h : onRead this x = .ok (this', x, .fail)) :
    decision this x = .ok (this', x, some .close) := by
  rw [decision, h]
  rfl

/-- A request is decided as its fields say, if its target is what they say. -/
theorem follows_requested {this' : Socks} (h : onRead this x = .ok (this', x, .request))
    (ht : target this' x = .ok (found this' fields)) :
    Follows this x i (requested this' fields) := by
  unfold requested
  split
  · next hcd =>
    change decision this x = _
    rw [decision, h]
    exact if_pos hcd
  · next hcd =>
    change decision this x = _
    rw [decision, h]
    change (if this'.CD ≠ 1 then _ else _) = _
    rw [if_neg hcd, ht]
    rfl

theorem follows_version {b : UInt8} (hx : Full [[b]] x) :
    Follows this x i (next this [] [b] .version) := by
  have hlim : x.vecLimit = 1 := hx.vecLimit
  have hb : x.data 0 = b := hx.data_at [] [] 0 Nat.zero_lt_one
  have hv : vecAt x 0 = .ok ⟨0, 1, 1, 1⟩ := hx.vecAt [] []
  simp only [next]
  split_ifs with h4 h5 h0 ha
  · refine decision_append ?_
    rw [onRead, if_pos ⟨h4.1, hlim⟩, hv]
    change (if x.data 0 = 4 then _ else _) = _
    rw [if_pos (hb.trans h4.2), hb, show b = 4 from h4.2]
  · refine decision_append ?_
    rw [onRead, if_pos ⟨h5.1, hlim⟩, hv]
    change (if x.data 0 = 4 then _ else if x.data 0 = 5 then _ else _) = _
    have hb5 : b = 5 := h5.2
    rw [hb, hb5]
    rfl
  · refine decision_fail ?_
    rw [onRead, if_pos ⟨h0, hlim⟩, hv]
    change (if x.data 0 = 4 then _ else if x.data 0 = 5 then _ else _) = _
    have hb4 : b ≠ 4 := fun h => h4 ⟨h0, h⟩
    have hb5 : b ≠ 5 := fun h => h5 ⟨h0, h⟩
    rw [hb, if_neg hb4, if_neg hb5]
    rfl
  · refine decision_append ?_
    exact onRead_authorized ⟨ha.1, ha.2⟩ hlim
  · refine decision_fail ?_
    rw [onRead, if_neg (fun h => h0 h.1)]
    split_ifs with hv4 hv5
    · rw [socks4OnRead, hlim]
      rfl
    · rw [socks5OnRead, if_pos (by simpa [hv5] using ha), hlim]
      split_ifs <;> rfl
    · rfl

theorem follows_header4 (h4 : this.VN = 4) (hl : last.length = 7) (hx : Full [[4], last] x) :
    Follows this x i (next this [[4]] last .header4) := by
  have hlim : x.vecLimit = 2 := hx.vecLimit
  have hv : vecAt x 1 = .ok ⟨1, last.length, last.length, last.length⟩ :=
    hx.vecAt [[4]] []
  have hb : x.data 1 = memory last 0 :=
    hx.data_at [[4]] [] 0 (by omega)
  have hp : loadU16 x.data (1 + 1) = loadU16 (memory last) 1 :=
    hx.load16 [[4]] [] _ (by omega)
  have ha : loadU32 x.data (1 + 3) = loadU32 (memory last) 3 :=
    hx.load32 [[4]] [] _ (by omega)
  refine decision_append ((onRead_header4 h4 hlim hv).trans ?_)
  dsimp only
  rw [← hb, ← hp, ← ha]

theorem target_four (h4 : this.VN = 4) (ha : ¬this.Socks4A) :
    target this x = .ok (found this fields) := by
  rw [target, found, if_neg (fun h => ha h.2), if_pos h4, if_neg (fun h => ha h.2), if_pos h4]
  rfl

theorem follows_userid {header : List UInt8} (h4 : this.VN = 4) (hne : last ≠ [])
    (hx : Full [[4], header, last] x) :
    Follows this x 2 (next this [[4], header] last .userid) := by
  have hlim : x.vecLimit = 3 := hx.vecLimit
  have hv := hx.vecAt [[4], header] []
  have hlast := hx.last [[4], header] [] hne
  have hread := onRead_userid h4 hlim hv
  simp only [next, ← hlast]
  split_ifs with h0 ha
  · have h0 : x.data ([[4], header].flatten.length + last.length - 1) ≠ 0 :=
      fun h => h0 (congrArg some h)
    exact decision_grow (hread.trans (if_neg h0))
  · have h0 : x.data ([[4], header].flatten.length + last.length - 1) = 0 := by simpa using h0
    exact decision_append (hread.trans ((if_pos h0).trans (if_pos ha)))
  · have h0 : x.data ([[4], header].flatten.length + last.length - 1) = 0 := by simpa using h0
    exact follows_requested (hread.trans ((if_pos h0).trans (if_neg ha))) (target_four h4 ha)

/-- A text that ends within its field does not depend on what lies behind it. -/
theorem cString_slice {mem : ℕ → UInt8} {off n : ℕ} {field : List UInt8} (h0 : 0 ∈ field)
    (hf : slice mem off field.length = field) :
    cString (slice mem off n) = cString (field.take n) := by
  rcases Nat.le_total n field.length with hn | hn
  · rw [← slice_take hn, hf]
  · obtain ⟨k, rfl⟩ := Nat.exists_eq_add_of_le hn
    rw [slice_add, hf, List.take_of_length_le hn, cString, cString, List.takeWhile_append, if_neg]
    intro hlen
    have hall := List.takeWhile_eq_self_iff.mp
      ((List.takeWhile_prefix fun b : UInt8 => decide (b ≠ 0)).eq_of_length hlen)
    simpa using hall 0 h0

theorem follows_host {header userid : List UInt8} (h4 : this.VN = 4) (ha : this.Socks4A)
    (hne : last ≠ []) (hx : Full [[4], header, userid, last] x) :
    Follows this x 3 (next this [[4], header, userid] last .host) := by
  have hlim : x.vecLimit = 4 := hx.vecLimit
  have hv := hx.vecAt [[4], header, userid] []
  have hlast := hx.last [[4], header, userid] [] hne
  have hread := onRead_host h4 ha hlim hv
  simp only [next, ← hlast]
  split_ifs with h0
  · have h0 : x.data ([[4], header, userid].flatten.length + last.length - 1) ≠ 0 :=
      fun h => h0 (congrArg some h)
    exact decision_grow (hread.trans (if_neg h0))
  · have h0 : x.data ([[4], header, userid].flatten.length + last.length - 1) = 0 := by
      simpa using h0
    have hmem : 0 ∈ last := List.mem_of_getLast? (hlast.symm.trans (congrArg some h0))
    refine follows_requested (hread.trans (if_pos h0)) ?_
    rw [target, found, if_pos ⟨h4, ha⟩, if_pos ⟨h4, ha⟩]
    rw [show (3 : ℕ) = [[4], header, userid].length from rfl, hv]
    change Except.ok _ = _
    rw [cString_slice hmem (hx.slice_at [[4], header, userid] [])]
    rfl

theorem follows_nmethods {n : UInt8} (hg : Greeted this) (hx : Full [[5], [n]] x) :
    Follows this x i (next this [[5]] [n] .nmethods) := by
  have hlim : x.vecLimit = 2 := hx.vecLimit
  have hv : vecAt x 1 = .ok ⟨1, 1, 1, 1⟩ := hx.vecAt [[5]] []
  have hn : x.data 1 = n := hx.data_at [[5]] [] 0 Nat.zero_lt_one
  have hread := onRead_nmethods hg hlim hv
  simp only [next]
  split_ifs with h0
  · exact decision_fail (hread.trans (if_pos (hn.trans h0)))
  · have hn0 : x.data 1 ≠ 0 := fun h => h0 (hn.symm.trans h)
    refine decision_append ((hread.trans (if_neg hn0)).trans ?_)
    dsimp only
    rw [hn, memory_cons_zero]

theorem follows_methods {n : UInt8} (hg : Greeted this) (hx : Full [[5], [n], last] x) :
    Follows this x i (next this [[5], [n]] last .methods) := by
  have hlim : x.vecLimit = 3 := hx.vecLimit
  have hv : vecAt x 2 = .ok ⟨2, last.length, last.length, last.length⟩ :=
    hx.vecAt [[5], [n]] []
  have hbytes : x.receivedBytes ⟨2, last.length, last.length, last.length⟩ = last :=
    hx.slice_at [[5], [n]] []
  have hdec : decision this x =
      if 0 ∈ last then .ok ({ this with SELMETHOD := 0, authorized := true }, x, some (.select 0))
      else .ok (this, x, some (.select 0xFF)) := by
    rw [decision, onRead_methods hg hlim]
    change (do let v ← vecAt x 2; _) = _
    rw [hv]
    refine (if_neg (not_not_intro hg.SELMETHOD)).trans ?_
    rw [hbytes]
    rfl
  simp only [next]
  split_ifs with h0
  · exact hdec.trans (if_pos h0)
  · exact hdec.trans (if_neg h0)

theorem follows_header5 {v c r t : UInt8} (ha : Authorized this)
    (hx : Full [[v], [c, r, t]] x) : Follows this x i (next this [[v]] [c, r, t] .header5) := by
  have hlim : x.vecLimit = 2 := hx.vecLimit
  have hv : vecAt x 1 = .ok ⟨1, 3, 3, 3⟩ := hx.vecAt [[v]] []
  have hc : x.data 1 = c := hx.data_at [[v]] [] 0 (Nat.zero_lt_succ _)
  have ht : x.data (1 + 2) = t :=
    hx.data_at [[v]] [] 2 (Nat.lt_succ_self _)
  have hread := onRead_header5 ha hlim hv
  dsimp only at hread
  rw [hc, ht] at hread
  simp only [next]
  split_ifs with h1 h3 h4
  · obtain rfl : t = 1 := h1
    exact decision_append hread
  · obtain rfl : t = 3 := h3
    exact decision_append hread
  · obtain rfl : t = 4 := h4
    exact decision_append hread
  · exact decision_fail (hread.trans ((if_neg h1).trans ((if_neg h3).trans (if_neg h4))))

/-- The target of a SOCKS5 request is what its address field says. -/
theorem target_five {v : UInt8} {header a : List UInt8} (h5 : this.VN = 5)
    (hh : Address this.ATYP a) (hx : Full [[v], header, a, last] x) :
    target this x = .ok (found this [[v], header, a, last]) := by
  have h4 : ¬(this.VN = 4) := by
    rw [h5]
    decide
  have hv := hx.vecAt [[v], header] [last]
  have ht : target this x = _ :=
    (if_neg (fun h => h4 h.1)).trans ((if_neg h4).trans (if_pos h5))
  have hf : found this [[v], header, a, last] = _ :=
    (if_neg (fun h => h4 h.1)).trans ((if_neg h4).trans (if_pos h5))
  rw [ht, hf, show (2 : ℕ) = [[v], header].length from rfl, hv]
  generalize hat : this.ATYP = atyp at hh ⊢
  cases hh with
  | ipv4 hl =>
    have hip : loadU32 x.data [[v], header].flatten.length = loadU32 (memory a) 0 :=
      hx.load32 [[v], header] [last] 0 (by omega)
    refine (if_pos rfl).trans ((?_ : _ = _).trans (congrArg Except.ok (if_pos rfl).symm))
    change Except.ok _ = Except.ok _
    dsimp only
    rw [hip]
    rfl
  | @name n a hl hn =>
    have h0 : x.data [[v], header].flatten.length = n :=
      hx.data_at [[v], header] [last] 0 (Nat.zero_lt_succ _)
    have hslice : slice x.data ([[v], header].flatten.length + 1) n.toNat = a := by
      have hs := congrArg List.tail (hx.slice_at [[v], header] [last])
      rw [← List.drop_one, slice_drop (by simp), ← hl] at *
      simpa using hs
    refine ((if_neg (by decide)).trans (if_pos rfl)).trans
      ((?_ : _ = _).trans (congrArg Except.ok ((if_neg (by decide)).trans (if_pos rfl)).symm))
    change Except.ok _ = Except.ok _
    dsimp only
    rw [h0, hslice]
    rfl
  | ipv6 hl =>
    have hs : slice x.data [[v], header].flatten.length a.length = a :=
      hx.slice_at [[v], header] [last]
    rw [hl] at hs
    refine ((if_neg (by decide)).trans ((if_neg (by decide)).trans (if_pos rfl))).trans
      ((?_ : _ = _).trans (congrArg Except.ok
        ((if_neg (by decide)).trans ((if_neg (by decide)).trans (if_pos rfl))).symm))
    change Except.ok _ = Except.ok _
    dsimp only
    rw [hs]
    rfl

theorem follows_append_port {v : UInt8} {header a : List UInt8} (ha : Authorized this)
    (hx : Full [[v], header, a] x) (hn : ¬(this.ATYP = 3 ∧ a.length = 1)) :
    Follows this x i (.append .port this 2) := by
  have hlim : x.vecLimit = 3 := hx.vecLimit
  have hv := hx.vecAt [[v], header] []
  exact decision_append ((onRead_address ha hlim hv).trans (if_neg hn))

theorem follows_length {v n : UInt8} {header : List UInt8} (ha : Authorized this)
    (ht : this.ATYP = 3) (hx : Full [[v], header, [n]] x) :
    Follows this x 2 (next this [[v], header] [n] .length) := by
  have hlim : x.vecLimit = 3 := hx.vecLimit
  have hv := hx.vecAt [[v], header] []
  have hn : x.data ([[v], header].flatten.length + [n].length - 1) = n :=
    hx.data_at [[v], header] [] 0 Nat.zero_lt_one
  refine decision_grow ((onRead_address ha hlim hv).trans ((if_pos ⟨ht, rfl⟩).trans ?_))
  dsimp only
  rw [hn, memory_cons_zero]

theorem follows_port {v : UInt8} {header a : List UInt8} (ha : Authorized this)
    (hh : Address this.ATYP a) (hl : last.length = 2) (hx : Full [[v], header, a, last] x) :
    Follows this x i (next this [[v], header, a] last .port) := by
  have hlim : x.vecLimit = 4 := hx.vecLimit
  have hv := hx.vecAt [[v], header, a] []
  have hp : loadU16 x.data [[v], header, a].flatten.length = loadU16 (memory last) 0 :=
    hx.load16 [[v], header, a] [] 0 (by omega)
  have hread := onRead_port ha hlim hv
  refine follows_requested (hread.trans ?_) (target_five ha.VN hh hx)
  rw [hp]


/-- The delegate follows the parser in every phase. -/
theorem Parser.Good.follows {p : Parser} {bs : List UInt8} (h : p.Good) (hbs : bs ≠ [])
    (hl : p.part.length + bs.length = p.room) (hx : Full (p.fields ++ [p.part ++ bs]) x) :
    Follows p.socks x p.fields.length (next p.socks p.fields (p.part ++ bs) p.phase) := by
  obtain ⟨this, phase, fields, part, room⟩ := p
  have hne : part ++ bs ≠ [] := List.append_ne_nil_of_right_ne_nil _ hbs
  dsimp only at hx hl ⊢
  cases phase with
  | version =>
    obtain ⟨h, -⟩ := h
    cases h
    obtain ⟨b, rfl⟩ : ∃ b, bs = [b] := List.length_eq_one_iff.mp (by simpa using hl)
    exact follows_version hx
  | header4 =>
    obtain ⟨h4, hf, hr, -⟩ := h
    dsimp only at hf hr
    subst hf hr
    exact follows_header4 h4 (by simpa using hl) hx
  | userid =>
    obtain ⟨⟨header, hh, hf⟩, -, -⟩ := h
    dsimp only at hf
    subst hf
    exact follows_userid hh.VN hne hx
  | host =>
    obtain ⟨⟨header, userid, hh, ha, -, hf⟩, -, -⟩ := h
    dsimp only at hf
    subst hf
    exact follows_host hh.VN ha hne hx
  | nmethods =>
    obtain ⟨hg, hf, hp, hr⟩ := h
    dsimp only at hf hr hp
    subst hf hr hp
    obtain ⟨b, rfl⟩ : ∃ b, bs = [b] := List.length_eq_one_iff.mp (by simpa using hl)
    exact follows_nmethods hg hx
  | methods =>
    obtain ⟨hg, n, -, hf, -⟩ := h
    dsimp only at hf
    subst hf
    exact follows_methods hg hx
  | header5 =>
    obtain ⟨ha, ⟨v, hf⟩, hr, -⟩ := h
    dsimp only at hf hr
    subst hf hr
    obtain ⟨c, r, t, hc⟩ := List.length_eq_three.mp ((List.length_append ..).trans hl)
    rw [hc] at hx ⊢
    exact follows_header5 ha hx
  | length =>
    obtain ⟨ha, ⟨v, r, hf⟩, ht, hr, hp⟩ := h
    dsimp only at hf hr hp
    subst hf hr hp
    obtain ⟨b, rfl⟩ : ∃ b, bs = [b] := List.length_eq_one_iff.mp (by simpa using hl)
    exact follows_length ha ht hx
  | ipv4 =>
    obtain ⟨ha, ⟨v, r, hf⟩, ht, -⟩ := h
    dsimp only at hf ht
    subst hf
    exact follows_append_port ha hx fun h => absurd (ht.symm.trans h.1) (by decide)
  | ipv6 =>
    obtain ⟨ha, ⟨v, r, hf⟩, ht, -⟩ := h
    dsimp only at hf ht
    subst hf
    exact follows_append_port ha hx fun h => absurd (ht.symm.trans h.1) (by decide)
  | name =>
    obtain ⟨ha, ⟨v, r, hf⟩, -, n, rest, hp, -⟩ := h
    dsimp only at hf hp
    subst hf hp
    refine follows_append_port ha hx fun h => ?_
    have hpos := List.length_pos_iff.mpr hbs
    simp only [List.length_append, List.length_cons] at h
    omega
  | port =>
    obtain ⟨ha, ⟨v, r, a, hf, hh⟩, hr, -⟩ := h
    dsimp only at hf hr
    subst hf hr
    exact follows_port ha hh ((List.length_append ..).trans hl) hx

end Phases

section Keeps

variable {this this' : Socks} {x : Frame} {o : Outcome}

/-- The last byte of a vector, or the byte before it if it is empty, ends a string. -/
def Terminated (x : Frame) (i : ℕ) : Prop :=
  ∃ v, vecAt x i = .ok v ∧ x.data (v.offset + v.position - 1) = 0

/-- The frame is taken for a request. With SOCKS4 its last string has ended, with SOCKS5 it has all
the vectors of a request of an authorized client. -/
def Asks (this : Socks) (x : Frame) : Prop :=
  this.VN = 4 ∧ (x.vecLimit = 3 ∧ ¬this.Socks4A ∧ Terminated x 2 ∨
    x.vecLimit = 4 ∧ this.Socks4A ∧ Terminated x 3) ∨
  this.VN = 5 ∧ this.authorized = true ∧ x.vecLimit = 4

theorem Asks.version (h : Asks this x) : this.VN = 4 ∨ this.VN = 5 := h.imp And.left And.left

/-- A client of SOCKS5 that is not authorized selects a method. -/
def Admits (this : Socks) (x : Frame) : Outcome → Prop
  | .request => Asks this x
  | .select => Greeted this ∧ x.vecLimit = 3
  | _ => True

/-- The size and the type of the frame, a version that is known and the authorization stay. The
frame changes only for more bytes. -/
structure Kept (this : Socks) (x : Frame) (r : Socks × Frame × Outcome) : Prop where
  capacity : r.2.1.capacity = x.capacity
  type : r.2.1.type = x.type
  VN : this.VN ≠ 0 → r.1.VN = this.VN
  authorized : r.1.authorized = this.authorized
  SELMETHOD : r.1.SELMETHOD = this.SELMETHOD
  frame : r.2.2 ≠ .more → r.2.1 = x
  request : r.2.2 = .request → ∃ port, r.1 = { this with DSTPORT := port }
  admits : Admits this x r.2.2

def Keeps (this : Socks) (x : Frame) (r : Except Fault (Socks × Frame × Outcome)) : Prop :=
  ∀ r', r = .ok r' → Kept this x r'

theorem keeps_self (ho : Admits this x o) : Keeps this x (.ok (this, x, o)) := by
  rintro _ ⟨⟩
  exact ⟨rfl, rfl, fun _ => rfl, rfl, rfl, fun _ => rfl, fun _ => ⟨this.DSTPORT, rfl⟩, ho⟩

theorem keeps_grow {i n : ℕ} :
    Keeps this x (.ok (this, x.prevVec.modifyVec i (grow n), .more)) := by
  rintro _ ⟨⟩
  unfold Frame.prevVec
  split <;> exact ⟨rfl, rfl, fun _ => rfl, rfl, rfl, fun h => absurd rfl h, by rintro ⟨⟩,
    trivial⟩

theorem keeps_append {n : ℕ} (hv : this.VN ≠ 0 → this'.VN = this.VN)
    (ha : this'.authorized = this.authorized) (hs : this'.SELMETHOD = this.SELMETHOD) :
    Keeps this x (do
      let (_, y) ← x.appendVec n
      return (this', y, .more)) := by
  intro r hr
  cases hx : x.appendVec n with
  | error e =>
    rw [hx] at hr
    cases hr
  | ok a =>
    rw [hx] at hr
    cases hr
    obtain ⟨r, y⟩ := a
    rcases Frame.createVec_ok hx with ⟨-, rfl, -⟩ | ⟨-, rfl, -⟩ <;>
      exact ⟨rfl, rfl, hv, ha, hs, fun h => absurd rfl h, by rintro ⟨⟩, trivial⟩

theorem keeps_vecAt {i : ℕ} {k : Vec → Except Fault (Socks × Frame × Outcome)}
    (hk : ∀ v, vecAt x i = .ok v → Keeps this x (k v)) : Keeps this x (vecAt x i >>= k) := by
  intro r hr
  cases hv : vecAt x i with
  | error e =>
    rw [hv] at hr
    cases hr
  | ok v =>
    rw [hv] at hr
    exact hk v hv r hr

theorem keeps_ite {c : Prop} [Decidable c] {r r' : Except Fault (Socks × Frame × Outcome)}
    (h : c → Keeps this x r) (h' : ¬c → Keeps this x r') : Keeps this x (if c then r else r') := by
  split
  · exact h ‹_›
  · exact h' ‹_›

theorem keeps_socks4OnRead : Keeps this x (socks4OnRead this x) := by
  unfold socks4OnRead
  split
  · exact keeps_ite (fun _ => keeps_vecAt fun _ _ => keeps_append (fun _ => rfl) rfl rfl)
      fun _ => keeps_self trivial
  · next hl =>
    refine keeps_ite (fun h4 => keeps_vecAt fun v hv => keeps_ite (fun h0 => ?_)
      fun _ => keeps_grow) fun _ => keeps_self trivial
    exact keeps_ite (fun _ => keeps_append (fun _ => rfl) rfl rfl)
      fun ha => keeps_self (.inl ⟨h4, .inl ⟨hl, ha, v, hv, h0⟩⟩)
  · next hl =>
    exact keeps_ite (fun h4 => keeps_vecAt fun v hv => keeps_ite
      (fun h0 => keeps_self (.inl ⟨h4.1, .inr ⟨hl, h4.2, v, hv, h0⟩⟩)) fun _ => keeps_grow)
      fun _ => keeps_self trivial
  · exact keeps_self trivial

theorem keeps_socks5OnRead (h5 : this.VN = 5) : Keeps this x (socks5OnRead this x) := by
  unfold socks5OnRead
  refine keeps_ite (fun ha => keeps_ite (fun hm => ?_) fun _ => keeps_self trivial) fun ha => ?_
  · split
    · exact keeps_vecAt fun _ _ => keeps_ite (fun _ => keeps_self trivial)
        fun _ => keeps_append (fun _ => rfl) rfl rfl
    · next hl => exact keeps_self ⟨⟨h5, ha, hm⟩, hl⟩
    · exact keeps_self trivial
  · split
    · exact keeps_append (fun _ => rfl) rfl rfl
    · refine keeps_vecAt fun _ _ => keeps_ite (fun _ => keeps_append (fun _ => rfl) rfl rfl)
        fun _ =>
        keeps_ite (fun _ => keeps_append (fun _ => rfl) rfl rfl) fun _ =>
        keeps_ite (fun _ => keeps_append (fun _ => rfl) rfl rfl) fun _ => ?_
      rintro _ ⟨⟩
      exact ⟨rfl, rfl, fun _ => rfl, rfl, rfl, fun _ => rfl, by rintro ⟨⟩, trivial⟩
    · exact keeps_vecAt fun _ _ => keeps_ite (fun _ => keeps_grow)
        fun _ => keeps_append (fun _ => rfl) rfl rfl
    · next hl =>
      refine keeps_vecAt fun _ _ => ?_
      rintro _ ⟨⟩
      exact ⟨rfl, rfl, fun _ => rfl, rfl, rfl, fun _ => rfl, fun _ => ⟨_, rfl⟩,
        .inr ⟨h5, Bool.eq_true_of_not_eq_false ha, hl⟩⟩
    · exact keeps_self trivial

theorem keeps_onRead : Keeps this x (onRead this x) := by
  unfold onRead
  refine keeps_ite (fun h0 => keeps_vecAt fun v _ => ?_) fun _ => keeps_ite
    (fun _ => keeps_socks4OnRead) fun _ => keeps_ite (fun h5 => keeps_socks5OnRead h5)
    fun _ => keeps_self trivial
  have hv : ∀ b : UInt8, this.VN ≠ 0 → b = this.VN := fun _ h => absurd h0.1 h
  refine keeps_ite (fun _ => keeps_append (hv _) rfl rfl) fun _ => keeps_ite
    (fun _ => keeps_append (hv _) rfl rfl) fun _ => ?_
  rintro _ ⟨⟩
  exact ⟨rfl, rfl, hv _, rfl, rfl, fun _ => rfl, by rintro ⟨⟩, trivial⟩

/-- A request sets nothing but an address. -/
theorem target_keeps {r : Socks × Option (Char × List UInt8 × ℕ)} (h : target this x = .ok r) :
    r.1.VN = this.VN ∧ r.1.authorized = this.authorized ∧ r.1.SELMETHOD = this.SELMETHOD := by
  unfold target at h
  split_ifs at h
  · obtain ⟨v, -, h⟩ := bind_ok h
    cases h
    exact ⟨rfl, rfl, rfl⟩
  · cases h
    exact ⟨rfl, rfl, rfl⟩
  · obtain ⟨v, -, h⟩ := bind_ok h
    cases h
    exact ⟨rfl, rfl, rfl⟩
  · obtain ⟨v, -, h⟩ := bind_ok h
    cases h
    exact ⟨rfl, rfl, rfl⟩
  · obtain ⟨v, -, h⟩ := bind_ok h
    cases h
    exact ⟨rfl, rfl, rfl⟩
  · cases h
    exact ⟨rfl, rfl, rfl⟩
  · cases h
    exact ⟨rfl, rfl, rfl⟩

/-- A request is a CONNECT and names a host. -/
def Named (this : Socks) (x : Frame) : Prop :=
  this.CD = 1 ∧
    (this.VN = 4 → this.Socks4A → ∃ v, vecAt x 3 = .ok v ∧ x.data v.offset ≠ 0) ∧
    (this.VN = 5 → this.ATYP = 1 ∨ this.ATYP = 4 ∨
      this.ATYP = 3 ∧ ∃ v, vecAt x 2 = .ok v ∧ x.data v.offset ≠ 0 ∧ x.data (v.offset + 1) ≠ 0)

theorem target_named {r : Socks × Option (Char × List UInt8 × ℕ)} (h : target this x = .ok r)
    (hv : this.VN = 4 ∨ this.VN = 5) (hcd : this.CD = 1) :
    (r.2.filter fun t => t.2.1 ≠ []).isSome ↔ Named this x := by
  unfold target at h
  unfold Named
  split_ifs at h with h4a h4 h5 h1 h3 h6
  · obtain ⟨v, hvec, h⟩ := bind_ok h
    cases h
    simp [h4a.1, h4a.2, hcd, hvec, cString_slice_eq_nil]
  · cases h
    have ha : ¬this.Socks4A := fun ha => h4a ⟨h4, ha⟩
    simp [h4, ha, hcd, snprintf_eq_nil, dottedQuad_ne_nil]
  · obtain ⟨v, hvec, h⟩ := bind_ok h
    cases h
    simp [h5, h1, hcd, snprintf_eq_nil, dottedQuad_ne_nil]
  · obtain ⟨v, hvec, h⟩ := bind_ok h
    cases h
    simp [h5, h3, hcd, hvec, snprintf_eq_nil, cString_slice_eq_nil, ← UInt8.toNat_inj]
  · obtain ⟨v, hvec, h⟩ := bind_ok h
    cases h
    have hne : hexGroups (slice x.data v.offset 16) ≠ [] := hexGroups_ne_nil (by simp [slice])
    simp [h5, h6, hcd, snprintf_eq_nil, hne]
  · cases h
    simp [h5, h1, h3, h6]
  · exact absurd hv (by simp [h4, h5])

/-- A decision keeps a version that is known. Only the selection of a method authorizes. -/
structure Decides (this : Socks) (x : Frame) (this' : Socks) (v : Option Verdict) : Prop where
  VN : this.VN ≠ 0 → this'.VN = this.VN
  request : ∀ t, v = some (.request t) → Asks this x ∧ (t.isSome ↔ Named this x)
  select : ∀ m, v = some (.select m) → Admits this x .select ∧
    ∃ u, vecAt x 2 = .ok u ∧ (m = 0 ↔ 0 ∈ x.receivedBytes u)
  authorized : v ≠ some (.select 0) →
    this'.authorized = this.authorized ∧ this'.SELMETHOD = this.SELMETHOD
  selected : v = some (.select 0) → this'.authorized = true ∧ this'.SELMETHOD = 0

theorem decides {r : Socks × Frame × Option Verdict} (h : decision this x = .ok r) :
    Decides this x r.1 r.2.2 := by
  unfold decision at h
  obtain ⟨⟨this₁, y, o⟩, hread, hd⟩ := bind_ok h
  clear h
  have k : Kept this x (this₁, y, o) := keeps_onRead _ hread
  cases o with
  | more | fail =>
    cases hd
    exact ⟨k.VN, by rintro _ ⟨⟩, by rintro _ ⟨⟩,
      fun _ => ⟨k.authorized, k.SELMETHOD⟩, by rintro ⟨⟩⟩
  | request =>
    obtain ⟨port, rfl⟩ : ∃ port, this₁ = { this with DSTPORT := port } := k.request rfl
    have hy : y = x := k.frame (by rintro ⟨⟩)
    subst hy
    dsimp only at hd
    split_ifs at hd with hcd
    · cases hd
      refine ⟨k.VN, ?_, by rintro _ ⟨⟩, fun _ => ⟨k.authorized, k.SELMETHOD⟩,
        by rintro ⟨⟩⟩
      rintro t ⟨⟩
      exact ⟨k.admits, by simp [Named, hcd]⟩
    · obtain ⟨r', ht, hd⟩ := bind_ok hd
      cases hd
      obtain ⟨hVN, ha, hs⟩ := target_keeps ht
      refine ⟨fun h0 => hVN.trans (k.VN h0), ?_, by rintro _ ⟨⟩,
        fun _ => ⟨ha.trans k.authorized, hs.trans k.SELMETHOD⟩, by rintro ⟨⟩⟩
      rintro t ⟨⟩
      have hnamed := target_named ht (Asks.version k.admits) (not_not.mp hcd)
      exact ⟨k.admits, hnamed⟩
  | select =>
    have hy : y = x := k.frame (by rintro ⟨⟩)
    subst hy
    obtain ⟨v, hv, hd⟩ := bind_ok hd
    split_ifs at hd with hm h0
    · cases hd
      refine ⟨k.VN, by rintro _ ⟨⟩, ?_, fun h => absurd rfl h, fun _ => ⟨rfl, rfl⟩⟩
      rintro m ⟨⟩
      exact ⟨k.admits, v, hv, fun _ => h0, fun _ => rfl⟩
    · cases hd
      refine ⟨k.VN, by rintro _ ⟨⟩, ?_, fun _ => ⟨k.authorized, k.SELMETHOD⟩,
        fun h => by simp at h⟩
      rintro m ⟨⟩
      exact ⟨k.admits, v, hv, fun h => absurd h (by decide), fun h => absurd h h0⟩

/-- A message behind the first one is not taken from a client of SOCKS4, nor from one of SOCKS5 that
is not authorized. -/
theorem decision_opens (ho : this.VN = 4 ∨ this.VN = 5 ∧ this.authorized = false)
    (hl : x.vecLimit ≤ 1) : decision this x = .ok (this, x, some .close) := by
  have hfail : onRead this x = .ok (this, x, .fail) := by
    rcases ho with h4 | ⟨h5, ha⟩
    · rw [onRead_four h4, socks4OnRead]
      split
      · omega
      · omega
      · omega
      · rfl
    · rw [onRead_five h5, socks5OnRead, if_pos ha]
      split_ifs
      · split
        · omega
        · omega
        · rfl
      · rfl
  rw [decision, hfail]
  rfl

/-- A version that is known stays. -/
theorem decision_VN {r : Socks × Frame × Option Verdict} (h : decision this x = .ok r)
    (h0 : this.VN ≠ 0) : r.1.VN = this.VN := (decides h).VN h0

end Keeps

end Socks

end FrameTransporter
