import Mathlib.Data.List.Induction
import Mathlib.Data.List.Perm.Subperm
import OpenwrtMtk.Mtd.Blocks

/-!
# When an image is written where it belongs

Erasing starts at the first block of the device whatever the offset of the partition is. With an
offset, blocks in front of it are erased, blocks behind it are written without having been erased,
and erasing can come after writing.
-/

namespace OpenwrtMtk.Mtd

open Toolkit

set_option autoImplicit false

def padImage (n : Nat) (image : List U8) : List U8 :=
  image ++ List.replicate ((n - image.length % n) % n) 0xff

/-- The good blocks from the offset on begin with the image, and what is below the offset or behind
the last written block is as it was. -/
structure Written (dev : Device) (partOffset : Nat) (image : List U8) (before after : FlashMemory)
    (pos : Nat) : Prop where
  image : padImage dev.erasesize image <+:
    (dev.goodFrom (partOffset / dev.erasesize)).flatMap (after.block dev.erasesize)
  below : ∀ b < dev.count, dev.erasesize * b < partOffset →
    after.block dev.erasesize b = before.block dev.erasesize b
  behind : ∀ b < dev.count, dev.bad b = false → pos ≤ dev.erasesize * b →
    after.block dev.erasesize b = before.block dev.erasesize b

def erasures (dev : Device) (image : List U8) : List (Nat × List U8) :=
  (dev.goodFrom 0).zip (imageBlocks dev.erasesize image)

def startBlock (dev : Device) (partOffset : Nat) : Nat :=
  if partOffset ≤ dev.mtdsize then partOffset / dev.erasesize else 0

/-- There are enough good blocks, and good blocks to be written. -/
structure Fits (dev : Device) (partOffset : Nat) (image : List U8) : Prop where
  enough : (imageBlocks dev.erasesize image).length ≤ (dev.goodFrom 0).length
  good : ∀ x ∈ erasures dev image, startBlock dev partOffset + x.1 < dev.count ∧
    dev.bad (startBlock dev partOffset + x.1) = false

/-- The block of the image that is written into this block, `p` blocks behind an erased one. -/
def landing (p : Nat) (xs : List (Nat × List U8)) (b : Nat) : Option (List U8) :=
  if p ≤ b then xs.lookup (b - p) else none

/-- The old contents make up for the erasing: what is erased below the offset was blank, the blocks
for the image hold it after they were erased or only written. -/
structure Harmless (dev : Device) (partOffset : Nat) (image : List U8) (mem : FlashMemory) :
    Prop where
  inside : partOffset ≤ dev.mtdsize
  below : ∀ x ∈ erasures dev image, dev.erasesize * x.1 < partOffset →
    mem.block dev.erasesize x.1 = blank dev.erasesize
  erased : ∀ y ∈ (dev.goodFrom (partOffset / dev.erasesize)).zip (imageBlocks dev.erasesize image),
    y.1 ∈ (erasures dev image).map Prod.fst → y.2 = blank dev.erasesize
  kept : ∀ y ∈ (dev.goodFrom (partOffset / dev.erasesize)).zip (imageBlocks dev.erasesize image),
    y.1 ∉ (erasures dev image).map Prod.fst →
      ((landing (partOffset / dev.erasesize) (erasures dev image) y.1).elim
        (mem.block dev.erasesize y.1) (masked (mem.block dev.erasesize y.1))) = y.2

section Image

variable {n : Nat}

theorem length_of_mem_imageBlocks (hn : 0 < n) {image data : List U8}
    (h : data ∈ imageBlocks n image) : data.length = n := by
  induction hlen : image.length using Nat.strongRecOn generalizing image with
  | ind k ih =>
    by_cases hne : image = []
    · rw [hne, imageBlocks_nil] at h
      cases h
    · rw [imageBlocks_of_ne_nil hn hne] at h
      rcases List.mem_cons.mp h with rfl | h
      · exact padBlock_length (by rw [List.length_take]; exact Nat.min_le_left _ _)
      · have hpos := List.length_pos_of_ne_nil hne
        exact ih (image.drop n).length (by rw [List.length_drop]; omega) h rfl

theorem flatten_imageBlocks (hn : 0 < n) (image : List U8) :
    (imageBlocks n image).flatten = padImage n image := by
  induction hlen : image.length using Nat.strongRecOn generalizing image with
  | ind k ih =>
    by_cases hne : image = []
    · subst hne
      simp [imageBlocks_nil, padImage]
    · have hpos := List.length_pos_of_ne_nil hne
      rw [imageBlocks_of_ne_nil hn hne, List.flatten_cons]
      by_cases hfull : n ≤ image.length
      · have hblock : padBlock n (image.take n) = image.take n := by
          rw [padBlock, List.length_take, Nat.min_eq_left hfull, Nat.sub_self]
          exact List.append_nil _
        have hmod : (image.drop n).length % n = image.length % n := by
          rw [List.length_drop]
          exact (Nat.mod_eq_sub_mod hfull).symm
        rw [ih (image.drop n).length (by rw [List.length_drop]; omega) _ rfl, hblock, padImage,
          padImage, hmod, ← List.append_assoc, List.take_append_drop]
      · have hshort : image.length < n := Nat.not_le.mp hfull
        rw [List.drop_of_length_le (Nat.le_of_lt hshort), imageBlocks_nil, List.flatten_nil,
          List.append_nil, List.take_of_length_le (Nat.le_of_lt hshort), padBlock, padImage,
          Nat.mod_eq_of_lt hshort, Nat.mod_eq_of_lt (by omega)]

/-- The blocks begin with the image just if each holds its part. -/
theorem prefix_iff (hn : 0 < n) (mem : FlashMemory) {image : List (List U8)}
    (himage : ∀ data ∈ image, data.length = n) (hs : List Nat) :
    image.flatten <+: hs.flatMap (mem.block n) ↔
      image.length ≤ hs.length ∧ ∀ y ∈ hs.zip image, mem.block n y.1 = y.2 := by
  induction image generalizing hs with
  | nil => simp
  | cons data image ih =>
    have hdata := himage data List.mem_cons_self
    cases hs with
    | nil =>
      refine iff_of_false ?_ (by simp)
      intro h
      have hlen := h.length_le
      simp only [List.flatten_cons, List.length_append, List.flatMap_nil, List.length_nil] at hlen
      omega
    | cons b hs =>
      have hlen : data.length = (mem.block n b).length := by rw [hdata, block_length]
      have hrest := ih (fun d hd => himage d (List.mem_cons_of_mem _ hd)) hs
      rw [List.flatten_cons, List.flatMap_cons, List.zip_cons_cons, List.forall_mem_cons,
        List.length_cons, List.length_cons, Nat.add_le_add_iff_right]
      constructor
      · rintro ⟨rest, h⟩
        rw [List.append_assoc] at h
        obtain ⟨hhead, htail⟩ := List.append_inj h hlen
        obtain ⟨hle, hall⟩ := hrest.mp ⟨rest, htail⟩
        exact ⟨hle, hhead.symm, hall⟩
      · rintro ⟨hle, hhead, hall⟩
        dsimp only at hhead
        rw [hhead]
        exact (List.prefix_append_right_inj data).mpr (hrest.mpr ⟨hle, hall⟩)

end Image

section Contents

variable {n p : Nat} {xs : List (Nat × List U8)}

def writeStep (n p : Nat) (s : FlashMemory × Nat) (x : Nat × List U8) : FlashMemory × Nat :=
  ((s.1.erase (n * x.1) n).program (n * (p + x.1)) x.2, n * (p + x.1 + 1))

theorem block_writeStep {x : Nat × List U8} (hx : x.2.length = n) (s : FlashMemory × Nat)
    (b : Nat) :
    (writeStep n p s x).1.block n b =
      if b = p + x.1 then masked (if b = x.1 then blank n else s.1.block n b) x.2
      else if b = x.1 then blank n else s.1.block n b := by
  rw [writeStep]
  dsimp only
  rw [block_program hx, block_erase]

theorem writeBlocks_eq_some_iff (dev : Device) (gs : List Nat) (image : List (List U8))
    (mem : FlashMemory) (pos : Nat) (s' : FlashMemory × Nat) :
    writeBlocks dev p gs image mem pos = some s' ↔
      (image.length ≤ gs.length ∧
        ∀ x ∈ gs.zip image, p + x.1 < dev.count ∧ dev.bad (p + x.1) = false) ∧
      s' = (gs.zip image).foldl (writeStep dev.erasesize p) (mem, pos) := by
  induction image generalizing gs mem pos with
  | nil =>
    have hnone : gs.zip ([] : List (List U8)) = [] := List.zip_nil_right
    rw [writeBlocks, hnone, Option.some_inj, eq_comm]
    exact ⟨fun h => ⟨⟨Nat.zero_le _, fun _ hx => absurd hx List.not_mem_nil⟩, h⟩, fun h => h.2⟩
  | cons data image ih =>
    cases gs with
    | nil =>
      refine iff_of_false (fun h => by cases h) ?_
      rintro ⟨⟨h, -⟩, -⟩
      cases h
    | cons g gs =>
      rw [writeBlocks, List.zip_cons_cons, List.forall_mem_cons, List.length_cons, List.length_cons,
        Nat.add_le_add_iff_right, List.foldl_cons]
      by_cases hgood : p + g < dev.count ∧ dev.bad (p + g) = false
      · rw [if_pos hgood, ih]
        exact ⟨fun h => ⟨⟨h.1.1, hgood, h.1.2⟩, h.2⟩, fun h => ⟨⟨h.1.1, h.1.2.2⟩, h.2⟩⟩
      · rw [if_neg hgood]
        exact iff_of_false (fun h => by cases h) fun h => hgood h.1.2.1

theorem foldl_writeStep_pos (hsorted : (xs.map Prod.fst).Pairwise (· < ·)) (s : FlashMemory × Nat) :
    ∀ x ∈ xs, n * (p + x.1 + 1) ≤ (xs.foldl (writeStep n p) s).2 := by
  induction xs using List.reverseRecOn with
  | nil => exact fun x hx => absurd hx List.not_mem_nil
  | append_singleton xs y _ =>
    intro x hx
    rw [List.foldl_append, List.foldl_cons, List.foldl_nil]
    apply Nat.mul_le_mul_left
    rcases List.mem_append.mp hx with hx | hx
    · rw [List.map_append, List.pairwise_append] at hsorted
      have hlt := hsorted.2.2 x.1 (List.mem_map_of_mem hx) y.1 (by simp)
      omega
    · obtain rfl := List.mem_singleton.mp hx
      exact Nat.le_refl _

theorem lookup_of_lt {b : Nat} (h : ∀ y ∈ xs, b < y.1) : xs.lookup b = none := by
  rw [List.lookup_eq_none_iff]
  intro y hy
  exact bne_iff_ne.mpr (Nat.ne_of_lt (h y hy))

theorem landing_nil (p b : Nat) : landing p [] b = none := by
  unfold landing
  split <;> rfl

theorem block_foldl_zero (hlen : ∀ x ∈ xs, x.2.length = n)
    (hsorted : (xs.map Prod.fst).Pairwise (· < ·)) (s : FlashMemory × Nat) (b : Nat) :
    (xs.foldl (writeStep n 0) s).1.block n b = (xs.lookup b).getD (s.1.block n b) := by
  induction xs generalizing s with
  | nil => rfl
  | cons x xs ih =>
    rw [List.map_cons, List.pairwise_cons] at hsorted
    have hx := hlen x List.mem_cons_self
    rw [List.foldl_cons, ih (fun y hy => hlen y (List.mem_cons_of_mem _ hy)) hsorted.2,
      block_writeStep hx, Nat.zero_add, List.lookup_cons]
    by_cases hb : b = x.1
    · subst hb
      have hnone : xs.lookup x.1 = none := lookup_of_lt fun y hy =>
        hsorted.1 y.1 (List.mem_map_of_mem hy)
      rw [if_pos rfl, if_pos rfl, hnone, masked_blank hx, beq_self_eq_true]
      rfl
    · rw [if_neg hb, if_neg hb, beq_false_of_ne hb]

theorem block_foldl_pos (hp : 0 < p) (hlen : ∀ x ∈ xs, x.2.length = n)
    (hsorted : (xs.map Prod.fst).Pairwise (· < ·)) (s : FlashMemory × Nat) (b : Nat) :
    (xs.foldl (writeStep n p) s).1.block n b =
      if b ∈ xs.map Prod.fst then blank n
      else (landing p xs b).elim (s.1.block n b) (masked (s.1.block n b)) := by
  induction xs generalizing s with
  | nil =>
    rw [List.map_nil, if_neg List.not_mem_nil, landing_nil]
    rfl
  | cons x xs ih =>
    rw [List.map_cons, List.pairwise_cons] at hsorted
    have hx := hlen x List.mem_cons_self
    have hlater : ∀ y ∈ xs, x.1 < y.1 := fun y hy => hsorted.1 y.1 (List.mem_map_of_mem hy)
    rw [List.foldl_cons, ih (fun y hy => hlen y (List.mem_cons_of_mem _ hy)) hsorted.2,
      block_writeStep hx, List.map_cons]
    by_cases hb : b ∈ xs.map Prod.fst
    · rw [if_pos hb, if_pos (List.mem_cons_of_mem _ hb)]
    · rw [if_neg hb]
      by_cases herased : b = x.1
      · have hnone : landing p xs b = none := by
          unfold landing
          split
          · exact lookup_of_lt fun y hy => Nat.lt_of_le_of_lt (by omega) (hlater y hy)
          · rfl
        have hmem : b ∈ x.1 :: xs.map Prod.fst := herased ▸ List.mem_cons_self
        have hfar : ¬ b = p + x.1 := by omega
        rw [if_pos hmem, hnone, if_neg hfar, if_pos herased]
        rfl
      · rw [if_neg (fun h => (List.mem_cons.mp h).elim herased hb), if_neg herased]
        by_cases hlands : b = p + x.1
        · have hnone : landing p xs b = none := by
            rw [landing, if_pos (by omega)]
            exact lookup_of_lt fun y hy => Nat.lt_of_le_of_lt (by omega) (hlater y hy)
          have hsome : landing p (x :: xs) b = some x.2 := by
            have hdiff : b - p = x.1 := by omega
            rw [landing, if_pos (by omega), List.lookup_cons, hdiff, beq_self_eq_true]
          rw [if_pos hlands, hnone, hsome]
          rfl
        · have hsame : landing p (x :: xs) b = landing p xs b := by
            unfold landing
            split
            · rw [List.lookup_cons, beq_false_of_ne (by omega)]
            · rfl
          rw [if_neg hlands, hsame]

theorem lookup_eq_some_iff (hsorted : (xs.map Prod.fst).Pairwise (· < ·)) {b : Nat}
    {data : List U8} : xs.lookup b = some data ↔ (b, data) ∈ xs := by
  induction xs with
  | nil => exact iff_of_false (fun h => by cases h) List.not_mem_nil
  | cons x xs ih =>
    rw [List.map_cons, List.pairwise_cons] at hsorted
    rw [List.lookup_cons, List.mem_cons, ← ih hsorted.2]
    by_cases hb : b = x.1
    · subst hb
      have hnone : xs.lookup x.1 = none := lookup_of_lt fun y hy =>
        hsorted.1 y.1 (List.mem_map_of_mem hy)
      rw [beq_self_eq_true, hnone]
      constructor
      · intro h
        cases h
        exact .inl rfl
      · rintro (h | h)
        · rw [← h]
        · cases h
    · rw [beq_false_of_ne hb]
      exact ⟨.inr, fun h => h.resolve_left fun heq => hb (congrArg Prod.fst heq)⟩

theorem mem_of_landing (hsorted : (xs.map Prod.fst).Pairwise (· < ·)) {b : Nat} {data : List U8}
    (h : landing p xs b = some data) : p ≤ b ∧ (b - p, data) ∈ xs := by
  unfold landing at h
  split at h
  · exact ⟨‹_›, (lookup_eq_some_iff hsorted).mp h⟩
  · cases h

end Contents

section Program

variable {dev : Device} {partOffset : Nat} {image : List U8}

theorem erasures_sorted (dev : Device) (image : List U8) :
    ((erasures dev image).map Prod.fst).Pairwise (· < ·) := by
  have htake : (erasures dev image).map Prod.fst =
      (dev.goodFrom 0).take
        (min (dev.goodFrom 0).length (imageBlocks dev.erasesize image).length) := by
    rw [erasures, List.zip_eq_zip_take_min, List.map_fst_zip]
    rw [List.length_take, List.length_take]
    omega
  rw [htake]
  exact (goodFrom_sorted dev 0).sublist (List.take_sublist _ _)

theorem length_of_mem_erasures {x : Nat × List U8} (hx : x ∈ erasures dev image) :
    x.2.length = dev.erasesize :=
  length_of_mem_imageBlocks dev.erasesize_pos (List.of_mem_zip hx).2

theorem erased_lt {x : Nat × List U8} (hx : x ∈ erasures dev image) : x.1 < dev.count :=
  (mem_goodFrom.mp (List.of_mem_zip hx).1).2.1

/-- What `mtd_write` leaves behind. -/
def written (dev : Device) (partOffset : Nat) (image : List U8) (mem : FlashMemory) :
    FlashMemory × Nat :=
  (erasures dev image).foldl (writeStep dev.erasesize (startBlock dev partOffset))
    (mem, dev.erasesize * startBlock dev partOffset)

/-- `mtd_write` returns 0 just if the image fits. -/
theorem mtdWrite_eq_some_iff {buf : List U8} {file : List (List U8)}
    (hbuf : buf.length ≤ dev.erasesize) (hfile : ∀ piece ∈ file, piece ≠ [])
    (hoffset : dev.erasesize ∣ partOffset) (mem : FlashMemory) (s' : FlashMemory × Nat) :
    (mtdWrite dev mem partOffset buf file).map (fun s => (s.mem, s.pos)) = some s' ↔
      Fits dev partOffset (buf ++ file.flatten) ∧
        s' = written dev partOffset (buf ++ file.flatten) mem := by
  obtain ⟨q, rfl⟩ := hoffset
  have hstart : (if 0 < dev.erasesize * q then dev.lseek 0 (dev.erasesize * q) else 0) =
      dev.erasesize * startBlock dev (dev.erasesize * q) := by
    rw [Device.lseek, startBlock, offset_div]
    by_cases hin : dev.erasesize * q ≤ dev.mtdsize
    · rw [if_pos hin, if_pos hin]
      split <;> omega
    · rw [if_neg hin, if_neg hin]
      split <;> rfl
  have hle : startBlock dev (dev.erasesize * q) ≤ dev.count := by
    rw [startBlock, offset_div]
    split
    · rename_i hin
      exact Nat.le_of_mul_le_mul_left hin dev.erasesize_pos
    · exact Nat.zero_le _
  have hpos : dev.erasesize * startBlock dev (dev.erasesize * q) =
      dev.erasesize * min (startBlock dev (dev.erasesize * q) + 0) dev.count := by
    rw [Nat.add_zero, Nat.min_eq_left hle]
  rw [mtdWrite, hstart, writeLoop_eq (by rw [List.length_append]; omega) hbuf hfile
    (Nat.mul_zero _).symm rfl hpos (Nat.zero_le _), writeBlocks_eq_some_iff]
  exact and_congr_left fun _ => ⟨fun h => ⟨h.1, h.2⟩, fun h => ⟨h.enough, h.good⟩⟩

theorem padImage_nil (n : Nat) : padImage n [] = [] := by
  rw [padImage, List.length_nil, Nat.zero_mod, Nat.sub_zero, Nat.mod_self]
  rfl

theorem written_nil (partOffset : Nat) (mem : FlashMemory) :
    Written dev partOffset [] mem (written dev partOffset [] mem).1
      (written dev partOffset [] mem).2 := by
  have hnone : erasures dev [] = [] := List.zip_nil_right
  rw [written, hnone]
  exact ⟨by rw [padImage_nil]; exact List.nil_prefix, fun _ _ _ => rfl, fun _ _ _ _ => rfl⟩

theorem behind_written {mem : FlashMemory} {b : Nat}
    (h : (written dev partOffset image mem).2 ≤ dev.erasesize * b) :
    ∀ x ∈ erasures dev image, startBlock dev partOffset + x.1 < b := by
  intro x hx
  have hle := Nat.le_trans (foldl_writeStep_pos (erasures_sorted dev image) _ x hx) h
  exact Nat.le_of_mul_le_mul_left hle dev.erasesize_pos

theorem written_zero (hfits : Fits dev 0 image) (mem : FlashMemory) :
    Written dev 0 image mem (written dev 0 image mem).1 (written dev 0 image mem).2 := by
  have hstart : startBlock dev 0 = 0 := by
    rw [startBlock, Nat.zero_div]
    split <;> rfl
  have hsorted := erasures_sorted dev image
  have hblock (b : Nat) : (written dev 0 image mem).1.block dev.erasesize b =
      ((erasures dev image).lookup b).getD (mem.block dev.erasesize b) := by
    rw [written, hstart]
    exact block_foldl_zero (fun x hx => length_of_mem_erasures hx) hsorted _ b
  constructor
  · rw [Nat.zero_div, ← flatten_imageBlocks dev.erasesize_pos,
      prefix_iff dev.erasesize_pos _ fun _ h => length_of_mem_imageBlocks dev.erasesize_pos h]
    refine ⟨hfits.enough, ?_⟩
    intro y hy
    rw [hblock, (lookup_eq_some_iff hsorted).mpr hy]
    rfl
  · intro b _ hb
    exact absurd hb (Nat.not_lt_zero _)
  · intro b _ _ hb
    have hnone : (erasures dev image).lookup b = none := by
      cases hlookup : (erasures dev image).lookup b with
      | none => rfl
      | some data =>
        have hlt := behind_written hb _ ((lookup_eq_some_iff hsorted).mp hlookup)
        dsimp only at hlt
        omega
    rw [hblock, hnone]
    rfl

section Offset

variable {mem : FlashMemory}

theorem block_written (mem : FlashMemory) (image : List U8)
    (hpos : 0 < startBlock dev partOffset) (b : Nat) :
    (written dev partOffset image mem).1.block dev.erasesize b =
      if b ∈ (erasures dev image).map Prod.fst then blank dev.erasesize
      else (landing (startBlock dev partOffset) (erasures dev image) b).elim
        (mem.block dev.erasesize b) (masked (mem.block dev.erasesize b)) :=
  block_foldl_pos hpos (fun _ hx => length_of_mem_erasures hx) (erasures_sorted dev image) _ b

theorem below_iff (hoffset : dev.erasesize ∣ partOffset) {b : Nat} :
    dev.erasesize * b < partOffset ↔ b < partOffset / dev.erasesize := by
  obtain ⟨q, rfl⟩ := hoffset
  rw [offset_div, Nat.mul_lt_mul_left dev.erasesize_pos]

theorem enough_behind (hfits : Fits dev partOffset image) :
    (imageBlocks dev.erasesize image).length ≤
      (dev.goodFrom (startBlock dev partOffset)).length := by
  have hsorted := erasures_sorted dev image
  have hlen : ((erasures dev image).map fun x => startBlock dev partOffset + x.1).length =
      (imageBlocks dev.erasesize image).length := by
    rw [List.length_map, erasures, List.length_zip, Nat.min_eq_right hfits.enough]
  have hnodup : ((erasures dev image).map fun x => startBlock dev partOffset + x.1).Nodup := by
    rw [List.pairwise_map] at hsorted
    refine List.pairwise_map.mpr (hsorted.imp ?_)
    intro x y hlt heq
    omega
  have hsubset : ((erasures dev image).map fun x => startBlock dev partOffset + x.1) ⊆
      dev.goodFrom (startBlock dev partOffset) := by
    intro b hb
    obtain ⟨x, hx, rfl⟩ := List.mem_map.mp hb
    obtain ⟨hin, hgood⟩ := hfits.good x hx
    exact mem_goodFrom.mpr ⟨Nat.le_add_right _ _, hin, hgood⟩
  rw [← hlen]
  exact (List.Nodup.subperm hnodup hsubset).length_le

/-- With an offset the image is where it belongs only if the old contents make up for it. -/
theorem written_offset_iff (hoffset : dev.erasesize ∣ partOffset) (hne : image ≠ [])
    (hpos : 0 < partOffset) (hfits : Fits dev partOffset image) :
    Written dev partOffset image mem (written dev partOffset image mem).1
        (written dev partOffset image mem).2 ↔ Harmless dev partOffset image mem := by
  have hn := dev.erasesize_pos
  have hsorted := erasures_sorted dev image
  by_cases hin : partOffset ≤ dev.mtdsize
  · have hstart : startBlock dev partOffset = partOffset / dev.erasesize := if_pos hin
    have hstart_pos : 0 < startBlock dev partOffset := by
      rw [hstart]
      exact Nat.div_pos (Nat.le_of_dvd hpos hoffset) hn
    have hblock := block_written mem image hstart_pos
    have henough := enough_behind hfits
    rw [hstart] at hblock henough
    have himage : padImage dev.erasesize image <+:
        (dev.goodFrom (partOffset / dev.erasesize)).flatMap ((written dev partOffset image mem).1.block dev.erasesize) ↔
        ∀ y ∈ (dev.goodFrom (partOffset / dev.erasesize)).zip (imageBlocks dev.erasesize image),
          (written dev partOffset image mem).1.block dev.erasesize y.1 = y.2 := by
      rw [← flatten_imageBlocks hn,
        prefix_iff hn _ fun _ h => length_of_mem_imageBlocks hn h]
      exact and_iff_right henough
    constructor
    · intro h
      refine ⟨hin, ?_, ?_, ?_⟩
      · intro x hx hbelow
        rw [← h.below x.1 (erased_lt hx) hbelow, hblock, if_pos (List.mem_map_of_mem hx)]
      · intro y hy herased
        rw [← himage.mp h.image y hy, hblock, if_pos herased]
      · intro y hy hkept
        have hy' := himage.mp h.image y hy
        rwa [hblock, if_neg hkept] at hy'
    · intro h
      refine ⟨himage.mpr ?_, ?_, ?_⟩
      · intro y hy
        rw [hblock]
        by_cases herased : y.1 ∈ (erasures dev image).map Prod.fst
        · rw [if_pos herased, h.erased y hy herased]
        · rw [if_neg herased, h.kept y hy herased]
      · intro b _ hbelow
        rw [hblock]
        by_cases herased : b ∈ (erasures dev image).map Prod.fst
        · obtain ⟨x, hx, rfl⟩ := List.mem_map.mp herased
          rw [if_pos herased, h.below x hx hbelow]
        · have hnone : landing (partOffset / dev.erasesize) (erasures dev image) b = none :=
            if_neg (Nat.not_le.mpr ((below_iff hoffset).mp hbelow))
          rw [if_neg herased, hnone]
          rfl
      · intro b _ _ hbehind
        have hlater := behind_written hbehind
        rw [hstart] at hlater
        have hkept : b ∉ (erasures dev image).map Prod.fst := by
          intro hmem
          obtain ⟨x, hx, rfl⟩ := List.mem_map.mp hmem
          have hlt := hlater x hx
          omega
        have hnone : landing (partOffset / dev.erasesize) (erasures dev image) b = none := by
          cases hland : landing (partOffset / dev.erasesize) (erasures dev image) b with
          | none => rfl
          | some data =>
            obtain ⟨hle, hmem⟩ := mem_of_landing hsorted hland
            have hlt := hlater _ hmem
            dsimp only at hlt
            omega
        rw [hblock, if_neg hkept, hnone]
        rfl
  · refine iff_of_false ?_ fun h => hin h.inside
    intro h
    have hend : dev.count ≤ partOffset / dev.erasesize := by
      rw [Nat.le_div_iff_mul_le hn, Nat.mul_comm]
      exact Nat.le_of_not_le hin
    have himage := h.image
    rw [goodFrom_end hend, List.flatMap_nil, List.prefix_nil, padImage,
      List.append_eq_nil_iff] at himage
    exact hne himage.1

end Offset

/-- If `mtd_write` returns 0, then the image is written where it belongs: just without an offset,
without an image, or if the old contents make up for what was erased at the wrong place. -/
theorem mtdWrite_written_iff (mem : FlashMemory) {buf : List U8} {file : List (List U8)}
    (hbuf : buf.length ≤ dev.erasesize) (hfile : ∀ piece ∈ file, piece ≠ [])
    (hoffset : dev.erasesize ∣ partOffset) :
    (∀ s, mtdWrite dev mem partOffset buf file = some s →
        Written dev partOffset (buf ++ file.flatten) mem s.mem s.pos) ↔
      partOffset = 0 ∨ buf ++ file.flatten = [] ∨ ¬ Fits dev partOffset (buf ++ file.flatten) ∨
        Harmless dev partOffset (buf ++ file.flatten) mem := by
  have hresult := mtdWrite_eq_some_iff hbuf hfile hoffset mem
  generalize buf ++ file.flatten = image at hresult ⊢
  have hwritten : (∀ s, mtdWrite dev mem partOffset buf file = some s →
      Written dev partOffset image mem s.mem s.pos) ↔
      (Fits dev partOffset image → Written dev partOffset image mem
        (written dev partOffset image mem).1 (written dev partOffset image mem).2) := by
    constructor
    · intro h hfits
      obtain ⟨s, hs, heq⟩ := Option.map_eq_some_iff.mp ((hresult _).mpr ⟨hfits, rfl⟩)
      have hs' := h s hs
      rwa [← heq]
    · intro h s hs
      obtain ⟨hfits, heq⟩ := (hresult (s.mem, s.pos)).mp (by rw [hs]; rfl)
      have hs' := h hfits
      rwa [← heq] at hs'
  rw [hwritten]
  by_cases hzero : partOffset = 0
  · subst hzero
    exact iff_of_true (fun hfits => written_zero hfits mem) (.inl rfl)
  · by_cases hnil : image = []
    · subst hnil
      exact iff_of_true (fun _ => written_nil partOffset mem) (.inr (.inl rfl))
    · by_cases hfits : Fits dev partOffset image
      · rw [← written_offset_iff hoffset hnil (Nat.pos_of_ne_zero hzero) hfits]
        simp [hzero, hnil, hfits]
      · exact iff_of_true (fun h => absurd h hfits) (.inr (.inr (.inl hfits)))

end Program

section Inputs

def smallFlash : Device where
  nand := true
  erasesize := 2
  count := 5
  bad b := decide (b = 1)
  erasesize_pos := by decide
  size_lt := by decide
  good_of_nor h := by cases h

theorem mtdWrite_written_example :
    ∃ s, mtdWrite smallFlash (fun _ => 0) 0 [1] [[2, 3], [4]] = some s ∧
      Written smallFlash 0 [1, 2, 3, 4] (fun _ => 0) s.mem s.pos := by
  have hsome : (mtdWrite smallFlash (fun _ => 0) 0 [1] [[2, 3], [4]]).isSome = true := by decide
  obtain ⟨s, hs⟩ := Option.isSome_iff_exists.mp hsome
  exact ⟨s, hs, (mtdWrite_written_iff _ (by decide) (by decide) (by decide)).mpr (.inl rfl) s hs⟩

/-- A block written at an offset of two blocks: the first block is erased for it. -/
theorem offset_not_written :
    ¬ ∀ (dev : Device) (mem : FlashMemory) (partOffset : Nat) (buf : List U8)
      (file : List (List U8)), buf.length ≤ dev.erasesize → (∀ piece ∈ file, piece ≠ []) →
      dev.erasesize ∣ partOffset → ∀ s, mtdWrite dev mem partOffset buf file = some s →
      Written dev partOffset (buf ++ file.flatten) mem s.mem s.pos := by
  intro h
  have hrun : (mtdWrite smallFlash (fun _ => 0) 4 [] [[1, 2]]).map (fun s => s.mem.block 2 0) =
      some [0xff, 0xff] := by decide
  obtain ⟨s, hs, hblock⟩ := Option.map_eq_some_iff.mp hrun
  have hwritten := h smallFlash (fun _ => 0) 4 [] [[1, 2]] (by decide) (by decide) (by decide) s hs
  have hbelow := hwritten.below 0 (by decide) (by decide)
  exact absurd (hblock.symm.trans hbelow) (by decide)

end Inputs

end OpenwrtMtk.Mtd
