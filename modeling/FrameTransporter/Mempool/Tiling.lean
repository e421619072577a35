import FrameTransporter.Intervals.Tiling
import FrameTransporter.Mempool.Layout

/-! # Frames that are only appended to

A frame whose vectors are appended, filled, trimmed at the end and removed from the
end is tiled: its vectors cover a prefix of the data area one behind the other. The
table of vectors stays clear of them, so the sizes that the next append computes are
exact.
-/

namespace FrameTransporter

open Intervals

/-- An operation moves the position of a vector within its limit. -/
def VecOp.Moves (v : Vec) : VecOp → Prop
  | setPosition position => position ≤ v.limit
  | advance delta => v.position + delta ≤ v.limit
  | forward delta => u64 (v.position + delta) ≤ v.limit
  | pos position => position ≤ v.limit
  | cat bytes => v.position + bytes.length ≤ v.limit
  | strcat text => v.position + text.length ≤ v.limit
  | vsprintf text => v.position < v.limit ∨ text = some []
  | _ => False

/-- The operations of a frame that is only appended to. -/
def FrameOp.Appends (x : Frame) : FrameOp → Prop
  | formatEmpty => True
  | appendVec capacity => 1 ≤ capacity ∧ capacity < 2 ^ 32
  | removeLastVec => True
  | vec i op => ∃ v, x.vecs[i]? = some v ∧
      (op.Moves v ∨ op = .trim ∧ i + 1 = x.vecLimit ∧ 1 ≤ v.position)
  | _ => False

section Moves

variable {x : Frame} {i : ℕ} {v : Vec} {op : VecOp}

theorem VecOp.Moves.sound (h : op.Moves v) (hv : v.Ordered) (hc : v.capacity ≤ 65535) :
    op.Sound v := by
  have hl := hv.limit
  cases op with
  | pos position => exact (u16_le _).trans h
  | cat bytes => exact lt_of_le_of_lt h (by omega)
  | strcat text => exact lt_of_le_of_lt h (by omega)
  | vsprintf text => exact h
  | extend size => cases h
  | _ => trivial

/-- A move fails no assertion. -/
theorem VecOp.Moves.exec_ok (h : op.Moves v) (hv : v.Ordered) (x : Frame) (i : ℕ) :
    ∃ y, op.exec x i v = .ok y := by
  cases op with
  | advance delta =>
    have hc : v.position + delta ≤ v.capacity := le_trans h hv.limit
    refine ⟨x.setVec i (v.at (v.position + delta)), ?_⟩
    rw [VecOp.exec, Vec.advance, if_neg (not_lt.mpr h), if_neg (not_lt.mpr hc)]
    rfl
  | forward delta =>
    have hc : u64 (v.position + delta) ≤ v.capacity := le_trans h hv.limit
    refine ⟨x.setVec i (v.at (u16 (u64 (v.position + delta)))), ?_⟩
    rw [VecOp.exec, Vec.forward, if_neg (not_lt.mpr h), if_neg (not_lt.mpr hc)]
    rfl
  | pos position =>
    have hc : v.position ≤ v.capacity := hv.position.trans hv.limit
    refine ⟨x.setVec i (v.at (u16 position)), ?_⟩
    rw [VecOp.exec, Vec.pos, if_neg (not_lt.mpr hv.position), if_neg (not_lt.mpr hc)]
    rfl
  | _ => exact ⟨_, rfl⟩

end Moves

namespace Frame

/-- The bytes that the vectors take. -/
def span (x : Frame) : ℕ := (x.vecs.map Vec.capacity).sum

/-- The vectors lie one behind the other from the start of the frame, and end below the
table. -/
structure Tiled (x : Frame) : Prop where
  tiles : Tiles Vec.offset Vec.capacity 0 x.vecs x.span
  below : x.span + SIZEOF_VEC * x.vecLimit ≤ x.capacity
  nonempty : ∀ v ∈ x.vecs, 1 ≤ v.capacity
  ordered : ∀ v ∈ x.vecs, v.Ordered

section Tiled

variable {x y : Frame} {i n : ℕ} {v w : Vec} {op : VecOp} {r : Option ℕ}

theorem length_le_sum {α : Type*} {f : α → ℕ} {l : List α} (h : ∀ a ∈ l, 1 ≤ f a) :
    l.length ≤ (l.map f).sum := by
  induction l with
  | nil => exact le_rfl
  | cons a l ih =>
    have ha := h a List.mem_cons_self
    have hl := ih fun b hb => h b (List.mem_cons_of_mem _ hb)
    rw [List.length_cons, List.map_cons, List.sum_cons]
    omega

theorem tiled_nil (hv : x.vecs = []) : x.Tiled := by
  have hspan : x.span = 0 := by rw [span, hv, List.map_nil, List.sum_nil]
  have hlimit : x.vecLimit = 0 := by rw [vecLimit, hv, List.length_nil]
  refine ⟨?_, ?_, ?_, ?_⟩
  · rw [hv, hspan]
    rfl
  · rw [hspan, hlimit]
    exact Nat.zero_le _
  · simp [hv]
  · simp [hv]

theorem Tiled.vecLimit_le (h : x.Tiled) : x.vecLimit ≤ x.span := length_le_sum h.nonempty

/-- The next vector goes where the tiles end. -/
theorem Tiled.appendOffset (h : x.Tiled) : x.appendOffset = x.span := by
  obtain hnil | ⟨vs, v, hv⟩ := List.eq_nil_or_concat' x.vecs
  · rw [Frame.appendOffset, span, hnil]
    rfl
  · have htiles := h.tiles
    rw [hv, tiles_concat] at htiles
    rw [Frame.appendOffset, hv, List.getLast?_concat]
    exact htiles.2

/-- There is always room below the table for its next entry. -/
theorem Tiled.room_pos (h : x.Tiled) (hx : MEMPAGE_SIZE ≤ x.capacity) : 0 < x.room := by
  have hlimit := h.vecLimit_le
  have hbelow := h.below
  simp only [room, SIZEOF_VEC, MEMPAGE_SIZE] at hbelow hx ⊢
  omega

theorem Tiled.sets (h : x.Tiled) (hv : x.vecs[i]? = some v) (hy : x.Sets i w y)
    (ho : w.offset = v.offset) (hc : w.capacity = v.capacity) (hw : w.Ordered) : y.Tiled := by
  have htiles : Tiles Vec.offset Vec.capacity 0 y.vecs x.span := by
    rw [hy.vecs]
    exact h.tiles.set hv ho hc
  have hspan : x.span = y.span := htiles.end_eq.trans (Nat.zero_add _)
  have hlimit : y.vecLimit = x.vecLimit := by rw [vecLimit, hy.vecs, List.length_set, vecLimit]
  refine ⟨hspan ▸ htiles, ?_, fun u hu => ?_, fun u hu => ?_⟩
  · rw [← hspan, hlimit, hy.capacity]
    exact h.below
  · rw [hy.vecs] at hu
    rcases List.mem_or_eq_of_mem_set hu with hu | rfl
    · exact h.nonempty u hu
    · exact hc ▸ h.nonempty v (List.mem_of_getElem? hv)
  · rw [hy.vecs] at hu
    rcases List.mem_or_eq_of_mem_set hu with hu | rfl
    · exact h.ordered u hu
    · exact hw

/-- The vectors in front of the last one, and what the last one becomes. -/
theorem Tiled.last {vs : List Vec} (h : x.Tiled) (hx : x.vecs = vs ++ [v])
    (hy : y.vecs = vs ++ [w]) (hcap : y.capacity = x.capacity) (ho : w.offset = v.offset)
    (hc : w.capacity ≤ v.capacity) (h1 : 1 ≤ w.capacity) (hw : w.Ordered) : y.Tiled := by
  have hspan : y.span + v.capacity = x.span + w.capacity := by
    simp only [span, hx, hy, List.map_append, List.map_cons, List.map_nil, List.sum_append,
      List.sum_cons, List.sum_nil]
    omega
  have hlimit : y.vecLimit = x.vecLimit := by simp [vecLimit, hx, hy]
  have htiles := h.tiles
  rw [hx, tiles_concat] at htiles
  obtain ⟨htiles, hend⟩ := htiles
  refine ⟨?_, ?_, fun u hu => ?_, fun u hu => ?_⟩
  · rw [hy, tiles_concat, ho]
    exact ⟨htiles, by omega⟩
  · have := h.below
    rw [hlimit, hcap]
    omega
  · rw [hy] at hu
    rcases List.mem_append.mp hu with hu | hu
    · exact h.nonempty u (hx ▸ List.mem_append_left _ hu)
    · rw [List.mem_singleton.mp hu]
      exact h1
  · rw [hy] at hu
    rcases List.mem_append.mp hu with hu | hu
    · exact h.ordered u (hx ▸ List.mem_append_left _ hu)
    · rw [List.mem_singleton.mp hu]
      exact hw

theorem Tiled.removeLastVec (h : x.Tiled) : x.removeLastVec.2.Tiled := by
  unfold Frame.removeLastVec
  split_ifs with hz
  · exact h
  · obtain hnil | ⟨vs, v, hv⟩ := List.eq_nil_or_concat' x.vecs
    · exact absurd (congrArg List.length hnil) hz
    · have htiles := h.tiles
      rw [hv, tiles_concat] at htiles
      have hdrop : x.vecs.dropLast = vs := by rw [hv, List.dropLast_concat]
      have hspan : v.offset = (vs.map Vec.capacity).sum :=
        htiles.1.end_eq.trans (Nat.zero_add _)
      have hlimit : x.vecLimit = vs.length + 1 := by simp [vecLimit, hv]
      have hbelow := h.below
      rw [hdrop]
      refine ⟨?_, ?_, fun u hu => ?_, fun u hu => ?_⟩
      · change Tiles _ _ 0 vs (vs.map Vec.capacity).sum
        exact hspan ▸ htiles.1
      · rw [hlimit] at hbelow
        change (vs.map Vec.capacity).sum + SIZEOF_VEC * vs.length ≤ x.capacity
        dsimp only [SIZEOF_VEC] at hbelow ⊢
        omega
      · exact h.nonempty u (hv ▸ List.mem_append_left _ hu)
      · exact h.ordered u (hv ▸ List.mem_append_left _ hu)

/-- An append is refused where the bytes and one more table entry do not fit behind the
vectors, and puts a vector of exactly that size there otherwise. -/
theorem Tiled.appendVec_eq (h : x.Tiled) (hlo : MEMPAGE_SIZE ≤ x.capacity)
    (hhi : x.capacity ≤ 65535) (hn : n < 2 ^ 63) :
    x.appendVec n =
      if x.capacity < x.span + n + SIZEOF_VEC * (x.vecLimit + 1) then .ok (none, x)
      else .ok (some x.vecLimit, { x with vecs := x.vecs ++ [⟨x.span, 0, n, n⟩] }) := by
  have hpos := h.room_pos hlo
  have hbelow := h.below
  have hsize : u64 (x.span + n) = x.span + n := Nat.mod_eq_of_lt (by omega)
  have hroom : x.room = x.capacity - SIZEOF_VEC * (x.vecLimit + 1) := rfl
  rw [Frame.appendVec, h.appendOffset]
  split_ifs with hfits
  · apply createVec_none
    rw [hsize, toSize, if_pos hpos.le]
    simp only [SIZEOF_VEC] at hroom hfits
    omega
  · simp only [SIZEOF_VEC] at hroom hfits hbelow
    have hspan : u16 x.span = x.span := Nat.mod_eq_of_lt (by omega)
    have hcap : u16 n = n := Nat.mod_eq_of_lt (by omega)
    rw [createVec_some (by omega) hpos, push, hspan, hcap]

theorem Tiled.push (h : x.Tiled) (h1 : 1 ≤ n)
    (hfits : ¬x.capacity < x.span + n + SIZEOF_VEC * (x.vecLimit + 1)) :
    Tiled { x with vecs := x.vecs ++ [⟨x.span, 0, n, n⟩] } := by
  have hspan : span { x with vecs := x.vecs ++ [⟨x.span, 0, n, n⟩] } = x.span + n := by
    simp [span]
  have hlimit : vecLimit { x with vecs := x.vecs ++ [⟨x.span, 0, n, n⟩] } = x.vecLimit + 1 := by
    simp [vecLimit]
  refine ⟨?_, ?_, fun u hu => ?_, fun u hu => ?_⟩
  · rw [hspan, tiles_concat]
    exact ⟨h.tiles, rfl⟩
  · rw [hspan, hlimit]
    exact not_lt.mp hfits
  · rcases List.mem_append.mp hu with hu | hu
    · exact h.nonempty u hu
    · rw [List.mem_singleton.mp hu]
      exact h1
  · rcases List.mem_append.mp hu with hu | hu
    · exact h.ordered u hu
    · rw [List.mem_singleton.mp hu]
      exact ⟨Nat.zero_le _, le_rfl⟩

theorem Tiled.capacity_le (h : x.Tiled) (hv : v ∈ x.vecs) : v.capacity ≤ x.capacity := by
  have hend := (h.tiles.mem_bounds hv).2
  have hbelow := h.below
  omega

theorem Tiled.move (h : x.Tiled) (hhi : x.capacity ≤ 65535) (hv : x.vecs[i]? = some v)
    (hop : op.Moves v) : ∃ y, op.exec x i v = .ok y ∧ y.Tiled := by
  have hmem := List.mem_of_getElem? hv
  have hord := h.ordered v hmem
  obtain ⟨y, hy⟩ := hop.exec_ok hord x i
  refine ⟨y, hy, ?_⟩
  have hs := hop.sound hord ((h.capacity_le hmem).trans hhi)
  obtain ⟨w, hsets, ⟨p, rfl, hp⟩ | ⟨rfl, -⟩ | ⟨rfl, -⟩ | ⟨size, rfl, -⟩⟩ := VecOp.exec_cases hv hy
  · exact h.sets hv hsets rfl rfl ⟨hp hs hord.position, hord.limit⟩
  · cases hop
  · cases hop
  · cases hop

theorem Tiled.trim (h : x.Tiled) (hv : x.vecs[i]? = some v) (hi : i + 1 = x.vecLimit)
    (h1 : 1 ≤ v.position) :
    ∃ y, VecOp.trim.exec x i v = .ok y ∧ y.Tiled := by
  refine ⟨_, rfl, ?_⟩
  obtain hnil | ⟨vs, u, hx⟩ := List.eq_nil_or_concat' x.vecs
  · rw [hnil] at hv
    cases hv
  · obtain rfl : i = vs.length := by simpa [vecLimit, hx] using hi
    obtain rfl : u = v := by simpa [hx] using hv
    obtain ⟨hpos, hlim⟩ := h.ordered u (hx ▸ List.mem_append_right _ List.mem_cons_self)
    have hy : (x.setVec vs.length u.trim).vecs = vs ++ [u.trim] := by
      rw [setVec, modifyVec, hx]
      exact modify_concat _ _ _
    exact h.last hx hy rfl rfl (hpos.trans hlim) h1 ⟨le_rfl, le_rfl⟩

/-- An operation of a frame that is only appended to fails no assertion and keeps the frame
tiled. -/
theorem Tiled.exec {op : FrameOp} (h : x.Tiled) (hlo : MEMPAGE_SIZE ≤ x.capacity)
    (hhi : x.capacity ≤ 65535) (hop : op.Appends x) :
    ∃ y, op.exec x = .ok y ∧ y.Tiled := by
  cases op with
  | formatEmpty => exact ⟨_, rfl, tiled_nil rfl⟩
  | appendVec capacity =>
    have happ := h.appendVec_eq hlo hhi (hop.2.trans (by norm_num))
    rw [FrameOp.exec, happ]
    split_ifs with hfits
    · exact ⟨x, rfl, h⟩
    · exact ⟨_, rfl, h.push hop.1 hfits⟩
  | removeLastVec => exact ⟨_, rfl, h.removeLastVec⟩
  | vec i op =>
    obtain ⟨v, hv, hop⟩ := hop
    rw [FrameOp.exec_vec, hv]
    rcases hop with hmove | ⟨rfl, hi, h1⟩
    · exact h.move hhi hv hmove
    · exact h.trim hv hi h1
  | _ => cases hop

end Tiled

end Frame

section Built

variable {x y : Frame} {op : FrameOp}

theorem FrameOp.Appends.capacity (hop : op.Appends x) (hy : op.exec x = .ok y) :
    y.capacity = x.capacity := by
  cases op with
  | formatEmpty =>
    cases hy
    rfl
  | appendVec capacity =>
    obtain ⟨⟨r, z⟩, hz, rfl⟩ := map_ok hy
    rcases Frame.createVec_ok hz with ⟨-, rfl, -⟩ | ⟨-, rfl, -⟩ <;> rfl
  | removeLastVec =>
    cases hy
    unfold Frame.removeLastVec
    split_ifs <;> rfl
  | vec i op =>
    obtain ⟨v, hv, -⟩ := hop
    rw [FrameOp.exec_vec, hv] at hy
    obtain ⟨w, hsets, -⟩ := VecOp.exec_cases hv hy
    exact hsets.capacity
  | _ => cases hop

theorem Built.tiled (hx : Built FrameOp.Appends x) (hlo : MEMPAGE_SIZE ≤ x.capacity)
    (hhi : x.capacity ≤ 65535) : x.Tiled := by
  induction hx with
  | init hv _ => exact Frame.tiled_nil hv
  | step _ hop hy ih =>
    have hcap := hop.capacity hy
    rw [hcap] at hlo hhi
    obtain ⟨z, hz, ht⟩ := (ih hlo hhi).exec hlo hhi hop
    rw [hy] at hz
    obtain rfl := Except.ok.inj hz
    exact ht

/-- In a frame that is only appended to, no assertion fails, an append is refused exactly
where it does not fit behind the vectors, and the vectors tile the start of the data area
below the table. -/
theorem built_tiles (hx : Built FrameOp.Appends x) (hlo : MEMPAGE_SIZE ≤ x.capacity)
    (hhi : x.capacity ≤ 65535) :
    (∀ op, FrameOp.Appends x op → ∃ y, op.exec x = .ok y) ∧
      (∀ n, 1 ≤ n → n < 2 ^ 32 →
        if x.capacity < x.span + n + SIZEOF_VEC * (x.vecLimit + 1) then
          x.appendVec n = .ok (none, x)
        else ∃ y, x.appendVec n = .ok (some x.vecLimit, y) ∧
          y.vecs = x.vecs ++ [⟨x.span, 0, n, n⟩] ∧ y.removeLastVec = (true, x)) ∧
      (∀ b, b < x.span ↔ ∃ v ∈ x.vecs, v.offset ≤ b ∧ b < v.offset + v.capacity) ∧
      x.vecs.Pairwise (fun v w => v.offset + v.capacity ≤ w.offset) ∧
      x.span + SIZEOF_VEC * x.vecLimit ≤ x.capacity := by
  have ht := hx.tiled hlo hhi
  refine ⟨fun op hop => ?_, fun n _ hn => ?_, fun b => ?_, ht.tiles.apart, ht.below⟩
  · obtain ⟨y, hy, -⟩ := ht.exec hlo hhi hop
    exact ⟨y, hy⟩
  · rw [ht.appendVec_eq hlo hhi (hn.trans (by norm_num))]
    split_ifs with hfits
    · rfl
    · refine ⟨_, rfl, rfl, ?_⟩
      simp [Frame.removeLastVec, Frame.vecLimit]
  · rw [← ht.tiles.covers]
    exact ⟨fun h => ⟨Nat.zero_le _, h⟩, And.right⟩

/-- Two vectors of a pool frame. -/
theorem built_tiles_append :
    ({ Pool.frameInit none with vecs := [⟨0, 0, 5, 5⟩, ⟨5, 0, 7, 7⟩] } : Frame).vecs.Pairwise
      (fun v w => v.offset + v.capacity ≤ w.offset) := by
  have h0 : Built FrameOp.Appends (Pool.frameInit none) := .init rfl rfl
  have h1 := @Built.step _ _ _ (.appendVec 5) h0 ⟨by decide, by decide⟩ rfl
  have h2 := @Built.step _ _ _ (.appendVec 7) h1 ⟨by decide, by decide⟩ rfl
  exact (built_tiles h2 (by decide) (by decide)).2.2.2.1

end Built

end FrameTransporter
