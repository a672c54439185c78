import Mathlib.Data.List.Sort
import Mathlib.Data.List.TakeWhile
import OpenwrtMtk.Luci.PoRead

/-!
# What is translated is what was written

The archive that `po2lmo` builds from a PO file holds its stored entries, and `lmo_translate` finds
the msgstr of each.
-/

namespace OpenwrtMtk.Luci

open Toolkit
open OpenwrtMtk.Ead (htonl)

set_option autoImplicit false

def translated (qsort : Qsort) (tmp file key : List U8) : Option Translation :=
  match po2lmo qsort tmp file with
  | .ok archive => (lmoLoadCatalog archive.toList).bind fun archives => lmoTranslate (some archives) key
  | .error _ => none

def Idle (s : Po2lmo) : Prop := Reading s .idle [] [] s

def roomOf (entries : List PoEntry) : Nat := ((entries.filter (·.Stored)).map PoEntry.room).sum

def Names (out : List U8) (x : LmoEntry) (e : PoEntry) : Prop :=
  x.keyId = sfhHash e.key ∧ x.offset.toNat + x.length.toNat ≤ out.length ∧
    slice out x.offset.toNat x.length.toNat = e.val

/-- What is written after these entries. -/
structure Written (done : List PoEntry) (s : Po2lmo) : Prop where
  offset : s.offset = s.out.length
  size : s.out.length = roomOf done
  index : List.Forall₂ (Names s.out) s.array (done.filter (·.Stored))

section Flush

variable {s₀ s : Po2lmo} {e : PoEntry} {done : List PoEntry} {l k v : List U8}

theorem Names.append {out : List U8} {x : LmoEntry} (h : Names out x e) (more : List U8) :
    Names (out ++ more) x e := by
  obtain ⟨hkey, hin, htext⟩ := h
  refine ⟨hkey, ?_, ?_⟩
  · rw [List.length_append]
    omega
  · rw [slice_append_left more hin, htext]

theorem roomOf_append (done : List PoEntry) (e : PoEntry) :
    roomOf (done ++ [e]) = roomOf done + if e.Stored then e.room else 0 := by
  unfold roomOf
  rw [List.filter_append, List.map_append, List.sum_append]
  by_cases he : e.Stored
  · simp [he]
  · simp [he]

theorem Reading.written (hs : Reading s₀ .msgstr k v s) (h : Written done s₀) : Written done s where
  offset := by rw [hs.offset, hs.out, h.offset]
  size := by rw [hs.out, h.size]
  index := by
    rw [hs.out, hs.array]
    exact h.index

theorem store_written (h : Written done s) (hval : Holds s.val e.val) (he : e.Stored)
    (hroom : s.out.length + e.room < 2 ^ 31) :
    ∃ s', s.store e.key e.val = .ok s' ∧ s'.tmp = s.tmp ∧ Written (done ++ [e]) s' := by
  obtain ⟨hzero, rest, hrest⟩ := cstr_eq_some hval.2
  have hbuffer := hval.1
  rw [hrest, List.length_append, List.length_cons] at hbuffer
  have hpad : e.room = e.val.length + (4 - e.val.length % 4) % 4 := rfl
  have htake : s.val.take e.room = e.val ++ (0 :: rest).take ((4 - e.val.length % 4) % 4) := by
    rw [hrest, hpad, List.take_length_add_append]
  have hlength : (s.val.take e.room).length = e.room := by
    rw [List.length_take, hval.1]
    unfold poBuffer at hbuffer ⊢
    omega
  have hoffset : (BitVec.ofNat 32 s.offset).toNat = s.out.length := by
    rw [BitVec.toNat_ofNat, h.offset, Nat.mod_eq_of_lt (by omega)]
  have hlen : (BitVec.ofNat 32 e.val.length).toNat = e.val.length := by
    rw [BitVec.toNat_ofNat, Nat.mod_eq_of_lt (by omega)]
  refine ⟨_, if_pos (by rw [h.offset, ← hpad]; exact hroom), rfl, ?_, ?_, ?_⟩
  · dsimp only
    rw [← hpad, List.length_append, hlength, h.offset]
  · dsimp only
    rw [← hpad, List.length_append, hlength, h.size, roomOf_append, if_pos he]
  · dsimp only
    rw [← hpad, List.filter_append]
    apply List.rel_append
    · exact h.index.imp fun x e' hx => hx.append _
    · rw [List.filter_cons_of_pos (by simpa using he), List.filter_nil]
      refine .cons ⟨rfl, ?_, ?_⟩ .nil
      · rw [hoffset, hlen, List.length_append, hlength]
        omega
      · rw [hoffset, hlen, htake, slice, List.drop_left, List.take_left]

theorem round_end (hs : Reading s₀ .msgstr e.key e.val s) (hl : 0x22 ∉ l) (h : Written done s₀)
    (hroom : roomOf (done ++ [e]) < 2 ^ 31) :
    ∃ s', s.round l = .ok s' ∧ Idle s' ∧ Written (done ++ [e]) s' := by
  have hscan : s.scan l = .ok { s with state := .complete } := by
    unfold Po2lmo.scan
    rw [hs.state]
    dsimp only
    rw [extractString_none hl]
    rfl
  have hwritten := hs.written h
  rw [roomOf_append, ← h.size, ← hs.out] at hroom
  unfold Po2lmo.round
  rw [hscan]
  simp only [bind, Except.bind]
  rw [if_pos trivial, Po2lmo.flush]
  dsimp only
  rw [bufferString_holds hs.key, bufferString_holds hs.val]
  simp only [bind, Except.bind]
  by_cases he : e.Stored
  · rw [if_pos he] at hroom
    have hguard : e.key ≠ [] ∧ e.val ≠ [] ∧ sfhHash e.key ≠ sfhHash e.val := he
    have hwritten' : Written done { s with state := .complete } := ⟨hwritten.1, hwritten.2, hwritten.3⟩
    obtain ⟨s', hstore, htmp, hs'⟩ := store_written hwritten' hs.val he hroom
    rw [if_pos hguard, hstore]
    exact ⟨_, rfl, ⟨rfl, holds_zeros, holds_zeros, by rw [htmp]; exact hs.tmp, rfl, rfl, rfl⟩,
      hs'.1, hs'.2, hs'.3⟩
  · have hguard : ¬(e.key ≠ [] ∧ e.val ≠ [] ∧ sfhHash e.key ≠ sfhHash e.val) := he
    rw [if_neg hguard]
    refine ⟨_, rfl, ⟨rfl, holds_zeros, holds_zeros, hs.tmp, rfl, rfl, rfl⟩, hwritten.1, ?_, ?_⟩
    · rw [roomOf_append, if_neg he, Nat.add_zero]
      exact hwritten.2
    · rw [List.filter_append, List.filter_cons_of_neg (by simpa using he), List.filter_nil,
        List.append_nil]
      exact hwritten.3

theorem round_idle (hs : Idle s) (hl : 0x22 ∉ l) : s.round l = .ok s := by
  have hword : (latin "msgid \"").isPrefixOf l = false := by
    rw [Bool.eq_false_iff]
    intro h
    rw [List.isPrefixOf_iff_prefix] at h
    exact hl (h.subset (by decide))
  apply round_of_scan
  · unfold Po2lmo.scan
    rw [hs.state]
    dsimp only
    rw [if_neg (by rw [hword]; decide)]
    rfl
  · rw [hs.state]
    decide

end Flush

def IsLine (b : List U8) : Prop := b.length + 1 < poBuffer ∧ ∀ c ∈ b, c ≠ 0 ∧ c ≠ 0x0a

section Lines

variable {b : List U8} {s s' : Po2lmo}

theorem takeWhile_line (hb : ∀ c ∈ b, c ≠ 0 ∧ c ≠ 0x0a) : b.takeWhile (· ≠ 0) = b := by
  rw [List.takeWhile_eq_self_iff]
  intro c hc
  simpa using (hb c hc).1

theorem rounds_line (hb : IsLine b) (fuel : Nat) (rest : List U8)
    (h : s.round (b ++ [0x0a]) = .ok s') :
    Po2lmo.rounds (fuel + 1) (b ++ 0x0a :: rest) s = Po2lmo.rounds fuel rest s' := by
  have hwhole : (b ++ [0x0a]).takeWhile (· ≠ 0) = b ++ [0x0a] := by
    rw [List.takeWhile_eq_self_iff]
    intro c hc
    rw [List.mem_append, List.mem_singleton] at hc
    rcases hc with hc | rfl
    · simpa using (hb.2 c hc).1
    · decide
  have hlen := hb.1
  rw [Po2lmo.rounds, fgets_line (fun c hc => (hb.2 c hc).2) (by omega)]
  dsimp only
  rw [if_neg (by simp), hwhole, h]
  rfl

theorem rounds_last (hb : IsLine b) (fuel : Nat) (hpending : b ≠ [] ∨ s.pending = true)
    (h : s.round b = .ok s') : Po2lmo.rounds (fuel + 1) b s = Po2lmo.rounds fuel [] s' := by
  have hlen := hb.1
  rw [Po2lmo.rounds, fgets_last (fun c hc => (hb.2 c hc).2) (by omega)]
  dsimp only
  rw [if_neg, takeWhile_line hb.2, h]
  · rfl
  · rintro ⟨hnil, hidle⟩
    rcases hpending with hb | hs
    · exact hb hnil
    · rw [hs] at hidle
      exact absurd hidle (by decide)

theorem rounds_end (hs : Idle s) (fuel : Nat) : Po2lmo.rounds (fuel + 1) [] s = .ok s := by
  rw [Po2lmo.rounds, show fgets (poBuffer - 1) [] = ([], []) from rfl]
  dsimp only
  rw [if_pos]
  · rfl
  · rw [Po2lmo.pending, hs.state]
    decide

theorem rounds_lines {bs : List (List U8)} (hbs : ∀ b ∈ bs, IsLine b) (fuel : Nat)
    (rest : List U8) (h : runLines (bs.map (· ++ [0x0a])) s = .ok s') :
    Po2lmo.rounds (fuel + bs.length) (bs.flatMap (· ++ [0x0a]) ++ rest) s =
      Po2lmo.rounds fuel rest s' := by
  induction bs generalizing s with
  | nil =>
    cases h
    rfl
  | cons b bs ih =>
    rw [List.map_cons, runLines, List.foldlM_cons] at h
    cases hround : s.round (b ++ [0x0a]) with
    | error x =>
      rw [hround] at h
      cases h
    | ok s₁ =>
      rw [hround] at h
      rw [List.length_cons, ← Nat.add_assoc, List.flatMap_cons, List.append_assoc,
        List.append_assoc, List.singleton_append,
        rounds_line (hbs b List.mem_cons_self) _ _ hround]
      exact ih (fun b' hb' => hbs b' (List.mem_cons_of_mem _ hb')) h

end Lines

section File

variable {e : PoEntry} {entries done : List PoEntry} {file : List U8} {s : Po2lmo}

theorem isLine_lines (h : e.Fits) : ∀ b ∈ e.lines, IsLine b := by
  intro b hb
  exact ⟨h.1 b hb, fun c hc => mem_lines hb hc⟩

theorem isLine_blank {b : List U8} (h : IsBlankLine b) : IsLine b := by
  refine ⟨h.1, fun c hc => ⟨?_, (h.2 c hc).2⟩⟩
  rintro rfl
  exact absurd (h.2 0 hc).1 (by decide)

theorem blank_no_quote {b : List U8} (h : IsBlankLine b) : 0x22 ∉ b ++ [0x0a] := by
  intro hc
  rw [List.mem_append, List.mem_singleton] at hc
  rcases hc with hc | hc
  · exact absurd (h.2 _ hc).1 (by decide)
  · exact absurd hc (by decide)

theorem extends_lines (h : e.Fits) :
    List.Forall₂ Extends (e.lines.map (· ++ [0x0a])) e.lines := by
  rw [List.forall₂_map_left_iff, List.forall₂_same]
  intro b hb
  refine ⟨List.prefix_append b _, ?_⟩
  rw [List.length_append, List.length_singleton]
  exact h.1 b hb

theorem rounds_text (hwhole : e.Whole) (hfits : e.Fits) (hs : Idle s) (fuel : Nat)
    (rest : List U8) : ∃ s', Reading s .msgstr e.key e.val s' ∧
      Po2lmo.rounds (fuel + e.lines.length) (e.text ++ rest) s = Po2lmo.rounds fuel rest s' := by
  obtain ⟨s', hrun, hs'⟩ := runLines_entry hwhole hfits (extends_lines hfits) hs
  exact ⟨s', hs', rounds_lines (isLine_lines hfits) fuel rest hrun⟩

theorem lines_ne_nil {b : List U8} (hb : b ∈ e.lines) : b ≠ [] := by
  rw [PoEntry.lines, List.mem_append, List.mem_cons, List.mem_cons] at hb
  rintro rfl
  rcases hb with (h | h) | (h | h)
  · exact absurd h.symm (by simp [PoString.quoted])
  · obtain ⟨x, -, hx⟩ := List.mem_map.mp h
    exact absurd hx (List.cons_ne_nil _ _)
  · exact absurd h.symm (by simp [PoString.quoted])
  · obtain ⟨x, -, hx⟩ := List.mem_map.mp h
    exact absurd hx (List.cons_ne_nil _ _)

theorem length_lines_le (e : PoEntry) : 2 * e.lines.length ≤ e.text.length := by
  have hne : ∀ b ∈ e.lines, b ≠ [] := fun b hb => lines_ne_nil hb
  rw [PoEntry.text]
  generalize e.lines = bs at hne
  induction bs with
  | nil => exact Nat.le_refl 0
  | cons b bs ih =>
    have hb := List.length_pos_of_ne_nil (hne b List.mem_cons_self)
    have hbs := ih fun c hc => hne c (List.mem_cons_of_mem _ hc)
    rw [List.flatMap_cons, List.length_append, List.length_cons, List.length_append,
      List.length_singleton]
    omega

theorem rounds_cut (hwhole : e.Whole) (hfits : e.Fits) (hs : Idle s) (fuel : Nat) :
    ∃ s', Reading s .msgstr e.key e.val s' ∧
      Po2lmo.rounds (fuel + e.lines.length) e.text.dropLast s = Po2lmo.rounds fuel [] s' := by
  obtain ⟨bs, b, hsplit⟩ : ∃ bs b, bs ++ [b] = e.lines :=
    ⟨_, _, List.dropLast_append_getLast (List.append_ne_nil_of_left_ne_nil (List.cons_ne_nil _ _) _)⟩
  have hmem (c : List U8) (hc : c ∈ bs ++ [b]) : c ∈ e.lines := hsplit ▸ hc
  have hb : b ∈ e.lines := hmem b (by simp)
  have hbs : ∀ c ∈ bs, c ∈ e.lines := fun c hc => hmem c (List.mem_append_left _ hc)
  have htext : e.text.dropLast = bs.flatMap (· ++ [0x0a]) ++ b := by
    rw [PoEntry.text, ← hsplit, List.flatMap_append, List.flatMap_singleton, ← List.append_assoc,
      List.dropLast_concat]
  have hextends : List.Forall₂ Extends (bs.map (· ++ [0x0a]) ++ [b]) e.lines := by
    rw [← hsplit]
    apply List.rel_append
    · rw [List.forall₂_map_left_iff, List.forall₂_same]
      intro c hc
      refine ⟨List.prefix_append c _, ?_⟩
      rw [List.length_append, List.length_singleton]
      exact hfits.1 c (hbs c hc)
    · have hlen := hfits.1 b hb
      exact .cons ⟨List.prefix_refl b, by omega⟩ .nil
  obtain ⟨s', hrun, hs'⟩ := runLines_entry hwhole hfits hextends hs
  refine ⟨s', hs', ?_⟩
  rw [runLines, List.foldlM_append, ← runLines] at hrun
  cases hfront : runLines (bs.map (· ++ [0x0a])) s with
  | error x =>
    rw [hfront] at hrun
    cases hrun
  | ok s₁ =>
    rw [hfront] at hrun
    have hround : s₁.round b = .ok s' := by
      cases h : s₁.round b with
      | error x =>
        simp only [bind, Except.bind, List.foldlM_cons, h] at hrun
        cases hrun
      | ok s₂ =>
        simp only [bind, Except.bind, List.foldlM_cons, h] at hrun
        exact hrun
    rw [htext, ← hsplit, List.length_append, List.length_singleton, Nat.add_comm bs.length,
      ← Nat.add_assoc,
      rounds_lines (fun c hc => isLine_lines hfits c (hbs c hc)) (fuel + 1) b hfront]
    exact rounds_last (isLine_lines hfits b hb) fuel (.inl (lines_ne_nil hb)) hround

theorem rounds_complete {s₀ : Po2lmo} (hs : Reading s₀ .msgstr e.key e.val s) (h : Written done s₀)
    (hroom : roomOf (done ++ [e]) < 2 ^ 31) (fuel : Nat) :
    ∃ s', Po2lmo.rounds (fuel + 2) [] s = .ok s' ∧ Written (done ++ [e]) s' := by
  obtain ⟨s', hround, hidle, hs'⟩ := @round_end s₀ s e done [] hs (by simp) h hroom
  refine ⟨s', ?_, hs'⟩
  have hline : IsLine [] := ⟨by decide, by simp⟩
  rw [rounds_last hline (fuel + 1) (.inr (by rw [Po2lmo.pending, hs.state]; decide)) hround,
    rounds_end hidle]

theorem roomOf_mono (done entries : List PoEntry) : roomOf done ≤ roomOf (done ++ entries) := by
  unfold roomOf
  rw [List.filter_append, List.map_append, List.sum_append]
  exact Nat.le_add_right _ _

theorem rounds_file (hfile : PoFile entries file) (hwhole : ∀ e ∈ entries, e.Whole)
    (hs : Idle s) (h : Written done s) (hroom : roomOf (done ++ entries) < 2 ^ 31) (fuel : Nat)
    (hfuel : file.length + 2 ≤ fuel) :
    ∃ s', Po2lmo.rounds fuel file s = .ok s' ∧ Written (done ++ entries) s' := by
  induction hfile generalizing s done fuel with
  | empty =>
    obtain ⟨fuel, rfl⟩ : ∃ n, fuel = n + 1 := ⟨fuel - 1, by omega⟩
    exact ⟨s, rounds_end hs fuel, by rw [List.append_nil]; exact h⟩
  | last e hfits =>
    have hlen := length_lines_le e
    obtain ⟨n, rfl⟩ : ∃ n, fuel = n + 2 + e.lines.length := ⟨fuel - 2 - e.lines.length, by omega⟩
    obtain ⟨s₁, hs₁, hrun⟩ := rounds_text (hwhole e (by simp)) hfits hs (n + 2) []
    rw [List.append_nil] at hrun
    rw [hrun]
    exact rounds_complete hs₁ h hroom n
  | cut e hfits =>
    have hlen := length_lines_le e
    have hpos : 0 < e.lines.length :=
      List.length_pos_of_ne_nil (List.append_ne_nil_of_left_ne_nil (List.cons_ne_nil _ _) _)
    rw [List.length_dropLast] at hfuel
    obtain ⟨n, rfl⟩ : ∃ n, fuel = n + 2 + e.lines.length := ⟨fuel - 2 - e.lines.length, by omega⟩
    obtain ⟨s₁, hs₁, hrun⟩ := rounds_cut (hwhole e (by simp)) hfits hs (n + 2)
    rw [hrun]
    exact rounds_complete hs₁ h hroom n
  | @next es rest e b hfits hb hrest ih =>
    have hlen := length_lines_le e
    rw [List.length_append, List.length_append, List.length_cons] at hfuel
    obtain ⟨n, rfl⟩ : ∃ n, fuel = n + 1 + e.lines.length := ⟨fuel - 1 - e.lines.length, by omega⟩
    obtain ⟨s₁, hs₁, hrun⟩ := rounds_text (hwhole e (by simp)) hfits hs (n + 1) (b ++ 0x0a :: rest)
    obtain ⟨s₂, hround, hidle, hs₂⟩ := round_end hs₁ (blank_no_quote hb) h (by
      have hmono := roomOf_mono (done ++ [e]) es
      rw [List.append_assoc, List.singleton_append] at hmono
      exact lt_of_le_of_lt hmono hroom)
    rw [List.append_assoc, hrun, rounds_line (isLine_blank hb) n _ hround]
    rw [List.append_cons] at hroom ⊢
    exact ih (fun e' he' => hwhole e' (List.mem_cons_of_mem _ he')) hidle hs₂ hroom n (by omega)
  | blank b hb hrest ih =>
    rw [List.length_append, List.length_cons] at hfuel
    obtain ⟨n, rfl⟩ : ∃ n, fuel = n + 1 := ⟨fuel - 1, by omega⟩
    rw [rounds_line (isLine_blank hb) n _ (round_idle hs (blank_no_quote hb))]
    exact ih hwhole hs h hroom n (by omega)

theorem exists_entry {α β : Type} {R : α → β → Prop} {xs : List α} {ys : List β}
    (h : List.Forall₂ R xs ys) {x : α} (hx : x ∈ xs) : ∃ y ∈ ys, R x y := by
  induction h with
  | nil => cases hx
  | cons hR hrest ih =>
    rcases List.mem_cons.mp hx with rfl | hx
    · exact ⟨_, List.mem_cons_self, hR⟩
    · obtain ⟨y, hy, hR'⟩ := ih hx
      exact ⟨y, List.mem_cons_of_mem _ hy, hR'⟩

theorem roomOf_pos (h : done.filter (·.Stored) ≠ []) : 0 < roomOf done := by
  unfold roomOf
  cases hstored : done.filter (·.Stored) with
  | nil => exact absurd hstored h
  | cons e es =>
    have he : e.Stored := by
      have hmem : e ∈ done.filter (·.Stored) := hstored ▸ List.mem_cons_self
      simpa using (List.mem_filter.mp hmem).2
    have hval := List.length_pos_of_ne_nil he.2.1
    rw [List.map_cons, List.sum_cons, PoEntry.room]
    omega

theorem archiveSize_eq (entries : List PoEntry) :
    archiveSize entries = roomOf entries + 16 * (entries.filter (·.Stored)).length + 4 := by
  unfold archiveSize roomOf
  induction entries.filter (·.Stored) with
  | nil => rfl
  | cons e es ih =>
    rw [List.map_cons, List.sum_cons, List.map_cons, List.sum_cons, List.length_cons]
    omega

/-- The archive is the texts and the sorted index; there is none where nothing is stored. -/
theorem po2lmo_written (qsort : Qsort) {tmp : List U8} (htmp : tmp.length = poBuffer)
    (hfile : PoFile entries file) (hwhole : ∀ e ∈ entries, e.Whole)
    (hsize : archiveSize entries < 2 ^ 31) :
    ∃ s, Written entries s ∧ po2lmo qsort tmp file =
      .ok (if 0 < s.out.length then some (archiveBytes s.out (qsort.sort s.array)) else none) := by
  have hidle : Idle (.init tmp) := ⟨rfl, holds_zeros, holds_zeros, htmp, rfl, rfl, rfl⟩
  have hinit : Written [] (.init tmp) := ⟨rfl, rfl, .nil⟩
  rw [archiveSize_eq] at hsize
  obtain ⟨s, hrun, hs⟩ := rounds_file hfile hwhole hidle hinit (by rw [List.nil_append]; omega)
    (file.length + 2) (Nat.le_refl _)
  rw [List.nil_append] at hs
  refine ⟨s, hs, ?_⟩
  unfold po2lmo
  rw [hrun]
  simp only [bind, Except.bind]
  rw [hs.offset, archiveBytes]
  split <;> rfl

theorem lmoCanonHash_eq {key : List U8} (hlen : key.length < poBuffer)
    (hcanon : lmoCanon key = key) : lmoCanonHash key = sfhHash key := by
  unfold poBuffer at hlen
  unfold lmoCanonHash
  rw [if_neg (by omega), hcanon]

theorem translated_cases (qsort : Qsort) {tmp : List U8} (htmp : tmp.length = poBuffer)
    (hfile : PoFile entries file) (hwhole : ∀ e ∈ entries, e.Whole)
    (hsize : archiveSize entries < 2 ^ 31) {key : List U8} (hlen : key.length < poBuffer)
    (hcanon : lmoCanon key = key)
    (hdistinct : ∀ e ∈ entries, sfhHash e.key = sfhHash key → e.key = key) :
    (∃ e ∈ entries, e.Stored ∧ e.key = key ∧
      translated qsort tmp file key = some (.found e.val)) ∨
    ((∀ e ∈ entries, e.Stored → e.key ≠ key) ∧
      translated qsort tmp file key = some .missing) := by
  obtain ⟨s, hs, hrun⟩ := po2lmo_written qsort htmp hfile hwhole hsize
  have hhash := lmoCanonHash_eq hlen hcanon
  have hcount := hs.index.length_eq
  by_cases hstored : entries.filter (·.Stored) = []
  · right
    have hout : s.out.length = 0 := by rw [hs.size, roomOf, hstored]; rfl
    refine ⟨?_, ?_⟩
    · intro e he hin
      have hmem : e ∈ entries.filter (·.Stored) := List.mem_filter.mpr ⟨he, by simpa using hin⟩
      rw [hstored] at hmem
      cases hmem
    · unfold translated
      rw [hrun, if_neg (by omega)]
      simp only [Option.toList_none, lmoLoadCatalog, List.foldlM_nil, Option.pure_def,
        Option.bind_some, lmoTranslate, translateIn]
  · have hpos : 0 < s.out.length := hs.size ▸ roomOf_pos hstored
    have hperm := qsort.perm s.array
    have hbytes : (archiveBytes s.out (qsort.sort s.array)).length = archiveSize entries := by
      rw [length_archiveBytes, hs.size, hperm.length_eq, hcount, archiveSize_eq]
    have hnames (x : LmoEntry) (hx : x ∈ qsort.sort s.array) :
        ∃ e ∈ entries, e.Stored ∧ Names s.out x e := by
      obtain ⟨e, he, hname⟩ := exists_entry hs.index (hperm.mem_iff.mp hx)
      obtain ⟨hmem, hin⟩ := List.mem_filter.mp he
      exact ⟨e, hmem, by simpa using hin, hname⟩
    have hload : translated qsort tmp file key =
        lmoTranslate (some [archiveOf s.out (qsort.sort s.array)]) key := by
      unfold translated
      rw [hrun, if_pos hpos]
      dsimp only [Option.toList_some]
      rw [lmoLoadCatalog_archiveBytes (by rw [hbytes]; exact hsize), Option.bind_some]
    rw [hload]
    have hne : qsort.sort s.array ≠ [] := by
      intro h
      rw [h, List.nil_perm] at hperm
      rw [hperm, List.length_nil] at hcount
      exact hstored (List.eq_nil_of_length_eq_zero hcount.symm)
    rcases lmoTranslate_archive (qsort.sorted s.array) hne (by rw [hbytes]; exact hsize)
      (fun x hx => (hnames x hx).elim fun _ h => h.2.2.2.1) key with
      ⟨x, hx, hkey, hfound⟩ | ⟨habsent, hmissing⟩
    · left
      obtain ⟨e, he, hin, hname⟩ := hnames x hx
      refine ⟨e, he, hin, hdistinct e he ?_, ?_⟩
      · rw [← hname.1, hkey, hhash]
      · rw [hfound, hname.2.2]
    · right
      refine ⟨?_, hmissing⟩
      rintro e he hin rfl
      obtain ⟨x, hx, hname⟩ := exists_entry hs.index.flip
        (List.mem_filter.mpr ⟨he, by simpa using hin⟩)
      exact habsent x (hperm.mem_iff.mpr hx) (hname.1.trans hhash.symm)

/-- A msgid that is its own canonical text is translated to the msgstr of a stored entry with this
msgid, and is missing where no entry with it is stored. -/
theorem msgstr_of_msgid (qsort : Qsort) {tmp : List U8} (htmp : tmp.length = poBuffer)
    (hfile : PoFile entries file) (hwhole : ∀ e ∈ entries, e.Whole)
    (hsize : archiveSize entries < 2 ^ 31)
    (hdistinct : ∀ e ∈ entries, ∀ e' ∈ entries, sfhHash e.key = sfhHash e'.key → e.key = e'.key)
    (he : e ∈ entries) (hcanon : lmoCanon e.key = e.key) :
    (∃ e' ∈ entries, e'.Stored ∧ e'.key = e.key ∧
      translated qsort tmp file e.key = some (.found e'.val)) ∨
    ((∀ e' ∈ entries, e'.Stored → e'.key ≠ e.key) ∧
      translated qsort tmp file e.key = some .missing) := by
  have hfits : e.Fits := by
    clear hdistinct hsize hwhole hcanon
    induction hfile with
    | empty => cases he
    | last e' h => exact List.mem_singleton.mp he ▸ h
    | cut e' h => exact List.mem_singleton.mp he ▸ h
    | next e' b h hb hrest ih =>
      rcases List.mem_cons.mp he with rfl | he
      · exact h
      · exact ih he
    | blank b hb hrest ih => exact ih he
  exact translated_cases qsort htmp hfile hwhole hsize hfits.2.1 hcanon
    fun e' he' => hdistinct e' he' e he

end File

section Examples

instance cmpIndex_total : Std.Total fun x y => cmpIndex x y ≤ 0 where
  total x y := by
    unfold cmpIndex
    by_cases h : x.keyId < y.keyId
    · left
      rw [if_pos h]
      decide
    · right
      rw [if_neg h]
      split <;> decide

instance cmpIndex_trans : IsTrans LmoEntry fun x y => cmpIndex x y ≤ 0 where
  trans x y z := by
    have hle (a b : LmoEntry) : cmpIndex a b ≤ 0 ↔ a.keyId ≤ b.keyId := by
      unfold cmpIndex
      grind
    rw [hle, hle, hle]
    exact BitVec.le_trans

def insertionQsort : Qsort where
  sort := List.insertionSort fun x y => cmpIndex x y ≤ 0
  perm := List.perm_insertionSort _
  sorted := List.pairwise_insertionSort _

def plainString (bytes : List U8) : PoString :=
  bytes.filterMap fun c =>
    if h : c ≠ 0 ∧ c ≠ 0x0a ∧ c ≠ 0x22 ∧ c ≠ 0x5c then some (.plain c h) else none

def exampleEntry : PoEntry :=
  ⟨[], [plainString (latin "ab")], plainString (latin "c d"), [[.escaped 0x22 (by decide)]]⟩

def exampleLast : PoEntry := ⟨plainString (latin "b"), [], plainString (latin "d"), []⟩

theorem exampleFile_layout : PoFile [exampleEntry, exampleLast]
    (exampleEntry.text ++ [0x20] ++ 0x0a :: exampleLast.text.dropLast) :=
  .next exampleEntry [0x20] (by decide +kernel) (by unfold IsBlankLine; decide +kernel)
    (.cut exampleLast (by decide +kernel))

theorem msgstr_of_msgid_example :
    (∃ e' ∈ [exampleEntry, exampleLast], e'.Stored ∧ e'.key = exampleEntry.key ∧
      translated insertionQsort (List.replicate poBuffer 0)
        (exampleEntry.text ++ [0x20] ++ 0x0a :: exampleLast.text.dropLast) exampleEntry.key =
        some (.found e'.val)) ∨
    ((∀ e' ∈ [exampleEntry, exampleLast], e'.Stored → e'.key ≠ exampleEntry.key) ∧
      translated insertionQsort (List.replicate poBuffer 0)
        (exampleEntry.text ++ [0x20] ++ 0x0a :: exampleLast.text.dropLast) exampleEntry.key =
        some .missing) :=
  msgstr_of_msgid insertionQsort List.length_replicate exampleFile_layout (by decide +kernel)
    (by decide +kernel) (by decide +kernel) List.mem_cons_self (by decide +kernel)

/-- `msgid "a"` with an empty msgstr. -/
def untranslatedEntry : PoEntry := ⟨plainString (latin "a"), [], [], []⟩

/-- `msgid "a"` that goes on in the next line with `"b"`. -/
def continuedEntry : PoEntry :=
  ⟨plainString (latin "a"), [plainString (latin "b")], plainString (latin "c"), []⟩

theorem msgstr_missing :
    (PoFile [untranslatedEntry] untranslatedEntry.text ∧
      lmoCanon untranslatedEntry.key = untranslatedEntry.key ∧
      sfhHash untranslatedEntry.key ≠ sfhHash untranslatedEntry.val ∧
      translated insertionQsort (List.replicate poBuffer 0) untranslatedEntry.text
        untranslatedEntry.key = some .missing) ∧
    PoFile [continuedEntry] continuedEntry.text ∧
      lmoCanon continuedEntry.key = continuedEntry.key ∧
      sfhHash continuedEntry.key ≠ sfhHash continuedEntry.val ∧
      translated insertionQsort (List.replicate poBuffer 0) continuedEntry.text
        continuedEntry.key = some .missing := by
  refine ⟨⟨.last _ (by decide +kernel), ?_⟩, .last _ (by decide +kernel), ?_⟩
  · decide +kernel
  · decide +kernel

end Examples

end OpenwrtMtk.Luci
