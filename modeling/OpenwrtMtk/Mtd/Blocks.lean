import OpenwrtMtk.Mtd.Write

/-!
# Writing block by block

`mtd_write` erases the good blocks in their order, from the first block of the device on, and writes
each block of the image as far behind the erased block as it started behind the first one.
-/

namespace OpenwrtMtk.Mtd

open Toolkit

set_option autoImplicit false

def Device.goodFrom (dev : Device) (a : Nat) : List Nat :=
  (List.range' a (dev.count - a)).filter fun b => !dev.bad b

def blocksOf (n : Nat) : Nat → List U8 → List (List U8)
  | 0, _ => []
  | turns + 1, image =>
    if image = [] then [] else padBlock n (image.take n) :: blocksOf n turns (image.drop n)

def imageBlocks (n : Nat) (image : List U8) : List (List U8) := blocksOf n image.length image

/-- The blocks of the image, put `p` blocks behind the good blocks that are erased. -/
def writeBlocks (dev : Device) (p : Nat) :
    List Nat → List (List U8) → FlashMemory → Nat → Option (FlashMemory × Nat)
  | _, [], mem, pos => some (mem, pos)
  | [], _ :: _, _, _ => none
  | g :: gs, data :: image, mem, _ =>
    if p + g < dev.count ∧ dev.bad (p + g) = false then
      writeBlocks dev p gs image
        ((mem.erase (dev.erasesize * g) dev.erasesize).program (dev.erasesize * (p + g)) data)
        (dev.erasesize * (p + g + 1))
    else none

section GoodBlocks

variable {dev : Device} {a : Nat}

theorem goodFrom_end (h : dev.count ≤ a) : dev.goodFrom a = [] := by
  rw [Device.goodFrom, Nat.sub_eq_zero_of_le h]
  rfl

theorem goodFrom_step (h : a < dev.count) :
    dev.goodFrom a = if dev.bad a then dev.goodFrom (a + 1) else a :: dev.goodFrom (a + 1) := by
  have hlen : dev.count - a = dev.count - (a + 1) + 1 := by omega
  rw [Device.goodFrom, hlen, List.range'_succ, List.filter_cons]
  cases dev.bad a <;> rfl

theorem mem_goodFrom {b : Nat} :
    b ∈ dev.goodFrom a ↔ a ≤ b ∧ b < dev.count ∧ dev.bad b = false := by
  rw [Device.goodFrom, List.mem_filter, List.mem_range'_1, Bool.not_eq_true', and_assoc]
  refine and_congr_right fun hle => and_congr_left fun _ => ?_
  omega

theorem goodFrom_sorted (dev : Device) (a : Nat) : (dev.goodFrom a).Pairwise (· < ·) :=
  List.Pairwise.filter _ List.pairwise_lt_range'

theorem goodFrom_tail {g : Nat} {gs : List Nat} (h : dev.goodFrom a = g :: gs) :
    gs = dev.goodFrom (g + 1) := by
  induction hk : dev.count - a generalizing a with
  | zero =>
    rw [goodFrom_end (Nat.le_of_sub_eq_zero hk)] at h
    cases h
  | succ k ih =>
    rw [goodFrom_step (Nat.lt_of_sub_eq_succ hk)] at h
    cases hbad : dev.bad a with
    | true =>
      rw [hbad, if_pos rfl] at h
      exact ih h (by omega)
    | false =>
      rw [hbad, if_neg Bool.false_ne_true] at h
      cases h
      rfl

end GoodBlocks

section Buffer

variable {n : Nat} {buf : List U8} {file : List (List U8)}

theorem readImage_flatten (room : Nat) (file : List (List U8)) :
    (readImage room file).1 ++ (readImage room file).2.flatten = file.flatten := by
  cases file with
  | nil => rfl
  | cons piece file =>
    rw [readImage]
    by_cases hfits : piece.length ≤ room
    · rw [if_pos hfits, List.take_of_length_le hfits]
      rfl
    · rw [if_neg hfits, List.flatten_cons, ← List.append_assoc, List.take_append_drop,
        List.flatten_cons]

theorem readImage_pieces (room : Nat) (hfile : ∀ piece ∈ file, piece ≠ []) :
    ∀ piece ∈ (readImage room file).2, piece ≠ [] := by
  cases file with
  | nil => exact fun _ h => absurd h List.not_mem_nil
  | cons piece file =>
    rw [readImage]
    intro q hq
    have hrest := fun q hq => hfile q (List.mem_cons_of_mem _ hq)
    dsimp only at hq
    split at hq
    · exact hrest q hq
    · rename_i hlong
      rcases List.mem_cons.mp hq with rfl | hq
      · rw [Ne, List.drop_eq_nil_iff]
        exact hlong
      · exact hrest q hq

theorem readImage_length (room : Nat) (file : List (List U8)) :
    (readImage room file).1.length ≤ room := by
  cases file with
  | nil => exact Nat.zero_le _
  | cons piece file => exact List.length_take_le _ _

theorem readImage_end {room : Nat} (hfile : ∀ piece ∈ file, piece ≠ []) (hroom : 0 < room)
    (hend : (readImage room file).1 = []) : file = [] := by
  cases file with
  | nil => rfl
  | cons piece file =>
    have hpiece := hfile piece List.mem_cons_self
    rw [readImage, List.take_eq_nil_iff] at hend
    cases hend with
    | inl hzero => omega
    | inr hnil => exact absurd hnil hpiece

theorem fillBuffer_eq (hbuf : buf.length ≤ n) (hfile : ∀ piece ∈ file, piece ≠ []) {reads : Nat}
    (hreads : n ≤ reads + buf.length) :
    (fillBuffer n reads buf file).1 = (buf ++ file.flatten).take n ∧
      (fillBuffer n reads buf file).2.flatten = (buf ++ file.flatten).drop n ∧
      ∀ piece ∈ (fillBuffer n reads buf file).2, piece ≠ [] := by
  have hfull {buf : List U8} (file : List (List U8)) (h : buf.length = n) :
      buf = (buf ++ file.flatten).take n ∧ file.flatten = (buf ++ file.flatten).drop n := by
    subst h
    exact ⟨List.take_left.symm, List.drop_left.symm⟩
  induction reads generalizing buf file with
  | zero =>
    obtain ⟨htake, hdrop⟩ := hfull file (Nat.le_antisymm hbuf (by omega))
    exact ⟨htake, hdrop, hfile⟩
  | succ reads ih =>
    rw [fillBuffer]
    by_cases hroom : buf.length < n
    · have hread := readImage_flatten (n - buf.length) file
      have hpieces := readImage_pieces (n - buf.length) hfile
      rw [if_pos hroom]
      dsimp only
      by_cases hend : (readImage (n - buf.length) file).1 = []
      · have hnil : file = [] := readImage_end hfile (by omega) hend
        subst hnil
        rw [if_pos hend, List.flatten_nil, List.append_nil, List.take_of_length_le hbuf,
          List.drop_of_length_le hbuf]
        exact ⟨rfl, rfl, hpieces⟩
      · rw [if_neg hend]
        have hone : 0 < (readImage (n - buf.length) file).1.length :=
          List.length_pos_of_ne_nil hend
        have hroom' := readImage_length (n - buf.length) file
        have hlen : (buf ++ (readImage (n - buf.length) file).1).length ≤ n := by
          rw [List.length_append]
          omega
        have hnext := ih hlen hpieces (by rw [List.length_append]; omega)
        rwa [List.append_assoc, hread] at hnext
    · rw [if_neg hroom]
      obtain ⟨htake, hdrop⟩ := hfull file (Nat.le_antisymm hbuf (Nat.not_lt.mp hroom))
      exact ⟨htake, hdrop, hfile⟩

theorem blocksOf_eq (hn : 0 < n) {image : List U8} {turns : Nat} (h : image.length ≤ turns) :
    blocksOf n turns image = imageBlocks n image := by
  unfold imageBlocks
  induction turns using Nat.strongRecOn generalizing image with
  | ind turns ih =>
    cases turns with
    | zero =>
      rw [List.eq_nil_of_length_eq_zero (Nat.le_zero.mp h)]
      rfl
    | succ turns =>
      cases image with
      | nil =>
        rw [blocksOf, if_pos rfl]
        rfl
      | cons c image =>
        have hdrop : ((c :: image).drop n).length ≤ image.length := by
          rw [List.length_drop, List.length_cons]
          omega
        rw [List.length_cons] at h
        rw [List.length_cons, blocksOf, blocksOf,
          ih turns (Nat.lt_succ_self _) (Nat.le_trans hdrop (Nat.le_of_succ_le_succ h)),
          ← ih image.length (by omega) hdrop]

theorem imageBlocks_nil : imageBlocks n [] = [] := rfl

theorem imageBlocks_of_ne_nil (hn : 0 < n) {image : List U8} (h : image ≠ []) :
    imageBlocks n image = padBlock n (image.take n) :: imageBlocks n (image.drop n) := by
  cases image with
  | nil => exact absurd rfl h
  | cons c image =>
    have hdrop : ((c :: image).drop n).length ≤ image.length := by
      rw [List.length_drop, List.length_cons]
      omega
    rw [imageBlocks, List.length_cons, blocksOf, if_neg h, blocksOf_eq hn hdrop]

theorem padBlock_length (h : buf.length ≤ n) : (padBlock n buf).length = n := by
  rw [padBlock, List.length_append, List.length_replicate]
  omega

end Buffer

section Loop

variable {dev : Device} {p a : Nat}

theorem lseek_step (dev : Device) (p a : Nat) :
    dev.lseek (dev.erasesize * min (p + a) dev.count)
        (dev.erasesize * min (p + a) dev.count + dev.erasesize) =
      dev.erasesize * min (p + (a + 1)) dev.count := by
  rw [Device.lseek, Device.mtdsize, ← Nat.mul_succ]
  by_cases hroom : p + a < dev.count
  · rw [Nat.min_eq_left (Nat.le_of_lt hroom),
      if_pos (Nat.mul_le_mul_left _ hroom), Nat.min_eq_left (by omega)]
    rfl
  · have hover : ¬ dev.erasesize * (min (p + a) dev.count).succ ≤ dev.erasesize * dev.count := by
      rw [Nat.mul_le_mul_left_iff dev.erasesize_pos]
      omega
    rw [if_neg hover, Nat.min_eq_right (Nat.not_lt.mp hroom), Nat.min_eq_right (by omega)]

theorem offset_div (dev : Device) (a : Nat) : dev.erasesize * a / dev.erasesize = a :=
  Nat.mul_div_cancel_left a dev.erasesize_pos

theorem offset_lt (dev : Device) : dev.erasesize * a < dev.mtdsize ↔ a < dev.count := by
  rw [Device.mtdsize, Nat.mul_lt_mul_left dev.erasesize_pos]

theorem blockIsBad_block (h : a < dev.count) :
    dev.blockIsBad (dev.erasesize * a) = some (dev.bad a) := by
  rw [Device.blockIsBad, if_pos ((offset_lt dev).mpr h), offset_div]
  by_cases hnand : dev.nand = true
  · rw [if_pos hnand]
  · rw [if_neg hnand, dev.good_of_nor (by simpa using hnand)]

theorem eraseAhead_eq {turns : Nat} {s : Progress} (hturns : dev.count + 1 ≤ turns + a)
    (he : s.e = dev.erasesize * a) (hw : s.e = s.w + s.skipBadBlocks)
    (hpos : s.pos = dev.erasesize * min (p + a) dev.count) (hroom : a ≤ dev.count) :
    eraseAhead dev dev.erasesize turns s = (dev.goodFrom a).head?.map fun g =>
      { mem := s.mem.erase (dev.erasesize * g) dev.erasesize
        pos := dev.erasesize * min (p + g) dev.count
        w := s.w
        e := dev.erasesize * (g + 1)
        skipBadBlocks := s.skipBadBlocks + (dev.erasesize * g - dev.erasesize * a) } := by
  have hn := dev.erasesize_pos
  induction turns generalizing a s with
  | zero => omega
  | succ turns ih =>
    have hmore : s.e - s.skipBadBlocks < s.w + dev.erasesize := by omega
    rw [eraseAhead, if_pos hmore, he]
    by_cases hend : a = dev.count
    · rw [goodFrom_end (Nat.le_of_eq hend.symm)]
      have hout : ¬ dev.erasesize * a < dev.mtdsize := by
        rw [offset_lt]
        omega
      have hrefused : ¬ (dev.erasesize * a + dev.erasesize ≤ dev.mtdsize ∧
          dev.bad (dev.erasesize * a / dev.erasesize) = false) := fun h => hout (by omega)
      rw [Device.blockIsBad, if_neg hout, Device.eraseBlock, if_neg hrefused]
      split <;> rfl
    · have hin : a < dev.count := Nat.lt_of_le_of_ne hroom hend
      rw [blockIsBad_block hin, goodFrom_step hin, ← Nat.mul_succ]
      cases hb : dev.bad a with
      | true =>
        have hnext := ih (a := a + 1) (s := { s with
          skipBadBlocks := s.skipBadBlocks + dev.erasesize
          e := dev.erasesize * a.succ
          pos := dev.lseek s.pos (s.pos + dev.erasesize) }) (by omega) rfl
          (by dsimp only; rw [Nat.mul_succ]; omega) (by dsimp only; rw [hpos, lseek_step]) hin
        rw [if_pos rfl]
        refine hnext.trans (Option.map_congr fun g hg => ?_)
        have hle := (mem_goodFrom.mp (List.mem_of_mem_head? hg)).1
        have hmul := Nat.mul_le_mul_left dev.erasesize hle
        rw [Nat.mul_succ] at hmul
        have hskip : s.skipBadBlocks + dev.erasesize +
            (dev.erasesize * g - dev.erasesize * (a + 1)) =
              s.skipBadBlocks + (dev.erasesize * g - dev.erasesize * a) := by
          rw [Nat.mul_succ]
          omega
        simp only [hskip]
      | false =>
        have herase : dev.eraseBlock s.mem (dev.erasesize * a) =
            some (s.mem.erase (dev.erasesize * a) dev.erasesize) := by
          have hfits : dev.erasesize * a + dev.erasesize ≤ dev.mtdsize := by
            rw [← Nat.mul_succ]
            exact Nat.mul_le_mul_left _ hin
          rw [Device.eraseBlock, offset_div, if_pos ⟨hfits, hb⟩]
        have hdone : ¬ dev.erasesize * a.succ - s.skipBadBlocks < s.w + dev.erasesize := by
          rw [Nat.mul_succ]
          omega
        rw [if_neg Bool.false_ne_true, herase]
        cases turns with
        | zero => omega
        | succ turns =>
          show eraseAhead dev dev.erasesize (turns + 1) _ = _
          rw [eraseAhead, if_neg hdone, List.head?_cons, Option.map_some, Nat.sub_self, hpos]
          rfl

theorem write_block {data : List U8} (hdata : data.length = dev.erasesize) (mem : FlashMemory)
    (q : Nat) :
    dev.write mem (dev.erasesize * q) data =
      if q < dev.count ∧ dev.bad q = false then
        some (mem.program (dev.erasesize * q) data, dev.erasesize)
      else none := by
  have hn := dev.erasesize_pos
  have hspace : dev.mtdsize - dev.erasesize * q = dev.erasesize * (dev.count - q) := by
    rw [Device.mtdsize, Nat.mul_sub]
  rw [Device.write, hspace]
  by_cases hin : q < dev.count
  · have hle : dev.erasesize ≤ dev.erasesize * (dev.count - q) :=
      Nat.le_mul_of_pos_right _ (Nat.sub_pos_of_lt hin)
    have hne : data ≠ [] := List.ne_nil_of_length_pos (hdata ▸ hn)
    have hbad : ((List.range dev.erasesize).any fun i =>
        dev.bad ((dev.erasesize * q + i) / dev.erasesize)) = dev.bad q := by
      rw [Bool.eq_iff_iff, List.any_eq_true]
      constructor
      · rintro ⟨i, hi, h⟩
        rw [Nat.mul_add_div hn, Nat.div_eq_of_lt (List.mem_range.mp hi)] at h
        exact h
      · intro h
        refine ⟨0, List.mem_range.mpr hn, ?_⟩
        rw [Nat.add_zero, offset_div]
        exact h
    rw [List.take_of_length_le (hdata ▸ hle), hdata, hbad]
    cases hb : dev.bad q with
    | true => simp
    | false => simp [hne, hin]
  · have hnil : data.take (dev.erasesize * (dev.count - q)) = [] := by
      rw [Nat.sub_eq_zero_of_le (Nat.not_lt.mp hin), Nat.mul_zero]
      rfl
    rw [hnil]
    simp [hin]

theorem writeLoop_eq {turns : Nat} {s : Progress} {buf : List U8} {file : List (List U8)}
    (hturns : (buf ++ file.flatten).length < turns) (hbuf : buf.length ≤ dev.erasesize)
    (hfile : ∀ piece ∈ file, piece ≠ []) (he : s.e = dev.erasesize * a)
    (hw : s.e = s.w + s.skipBadBlocks) (hpos : s.pos = dev.erasesize * min (p + a) dev.count)
    (hroom : a ≤ dev.count) :
    (writeLoop dev turns s buf file).map (fun s => (s.mem, s.pos)) =
      writeBlocks dev p (dev.goodFrom a) (imageBlocks dev.erasesize (buf ++ file.flatten)) s.mem
        s.pos := by
  have hn := dev.erasesize_pos
  induction turns generalizing a s buf file with
  | zero => omega
  | succ turns ih =>
    obtain ⟨hread, hrest, hpieces⟩ := fillBuffer_eq hbuf hfile (Nat.le_add_right _ buf.length)
    rw [writeLoop]
    generalize fillBuffer dev.erasesize dev.erasesize buf file = filled at hread hrest hpieces
    obtain ⟨block, rest⟩ := filled
    generalize buf ++ file.flatten = image at hturns hread hrest
    dsimp only at hread hrest hpieces ⊢
    by_cases hend : block = []
    · have hnil : image = [] := by
        rw [hread, List.take_eq_nil_iff] at hend
        exact hend.resolve_left (by omega)
      rw [if_pos hend, hnil, imageBlocks_nil]
      cases dev.goodFrom a <;> rfl
    · have hne : image ≠ [] := by
        rintro rfl
        exact hend (hread.trans List.take_nil)
      have hlen : (padBlock dev.erasesize block).length = dev.erasesize :=
        padBlock_length (by rw [hread, List.length_take]; exact Nat.min_le_left _ _)
      rw [if_neg hend, hlen, eraseAhead_eq (Nat.le_add_right _ _) he hw hpos hroom,
        imageBlocks_of_ne_nil hn hne, ← hread, ← hrest]
      cases hgood : dev.goodFrom a with
      | nil => rfl
      | cons g gs =>
        have hg := mem_goodFrom.mp (hgood ▸ List.mem_cons_self : g ∈ dev.goodFrom a)
        rw [List.head?_cons, Option.map_some, writeBlocks, goodFrom_tail hgood]
        dsimp only [Option.bind_eq_bind, Option.bind_some]
        rw [write_block hlen]
        by_cases hin : p + g < dev.count
        · rw [Nat.min_eq_left (Nat.le_of_lt hin)]
          by_cases hbad : dev.bad (p + g) = false
          · have hle := Nat.mul_le_mul_left dev.erasesize hg.1
            have hpos' : dev.erasesize * (p + g) + dev.erasesize =
                dev.erasesize * (p + g + 1) := (Nat.mul_succ _ _).symm
            have hstep : dev.erasesize * (g + 1) = dev.erasesize * g + dev.erasesize :=
              Nat.mul_succ _ _
            rw [if_pos ⟨hin, hbad⟩, if_pos ⟨hin, hbad⟩, Option.bind_some, if_neg (by omega), hpos']
            have hless : (([] : List U8) ++ rest.flatten).length < turns := by
              rw [List.nil_append, hrest, List.length_drop]
              have hone := List.length_pos_of_ne_nil hne
              omega
            refine ih hless (Nat.zero_le _) hpieces rfl ?_ ?_ hg.2.1
            · dsimp only
              omega
            · dsimp only
              rw [Nat.min_eq_left (by omega), Nat.add_assoc]
          · rw [if_neg fun h => hbad h.2, if_neg fun h => hbad h.2]
            rfl
        · rw [Nat.min_eq_right (Nat.not_lt.mp hin), if_neg fun h => Nat.lt_irrefl _ h.1,
            if_neg fun h => hin h.1]
          rfl

end Loop

end OpenwrtMtk.Mtd
