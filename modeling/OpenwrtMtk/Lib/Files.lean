import OpenwrtMtk.Lib.Bytes

/-!
# Files

The lines of a file and what a program that reads it in pieces sees of it.
-/

/-!
## Reading a file line by line

`fgets` reads up to a newline. While no line is too long for the buffer, the reads are the lines.
-/

namespace Toolkit

set_option autoImplicit false

universe u

/-- At most `n` bytes of the file, up to and with a newline. -/
def fgets : Nat → List U8 → List U8 × List U8
  | 0, file => ([], file)
  | _ + 1, [] => ([], [])
  | n + 1, c :: file =>
    if c = 0x0a then ([c], file)
    else
      let (line, rest) := fgets n file
      (c :: line, rest)

/-- The reads up to the end of the file. Each takes a byte, so `file.length` of them are enough. -/
def reads (n : Nat) : Nat → List U8 → List (List U8)
  | 0, _ => []
  | fuel + 1, file =>
    if file = [] then [] else (fgets n file).1 :: reads n fuel (fgets n file).2

def lines (file : List U8) : List (List U8) := file.splitOnP (· = 0x0a)

section Reads

variable {b : List U8} {n : Nat}

theorem fgets_line (hb : ∀ c ∈ b, c ≠ 0x0a) (hn : b.length < n) (rest : List U8) :
    fgets n (b ++ 0x0a :: rest) = (b ++ [0x0a], rest) := by
  induction b generalizing n with
  | nil =>
    cases n with
    | zero => exact absurd hn (by simp)
    | succ n => rfl
  | cons c b ih =>
    cases n with
    | zero => exact absurd hn (by simp)
    | succ n =>
      have hrest := ih (fun d hd => hb d (List.mem_cons_of_mem _ hd))
        (show b.length < n by rw [List.length_cons] at hn; omega)
      rw [List.cons_append, fgets, if_neg (hb c List.mem_cons_self), hrest]
      rfl

theorem fgets_last (hb : ∀ c ∈ b, c ≠ 0x0a) (hn : b.length ≤ n) : fgets n b = (b, []) := by
  induction b generalizing n with
  | nil => cases n <;> rfl
  | cons c b ih =>
    cases n with
    | zero => exact absurd hn (by simp)
    | succ n =>
      have hrest := ih (fun d hd => hb d (List.mem_cons_of_mem _ hd))
        (show b.length ≤ n by rw [List.length_cons] at hn; omega)
      rw [fgets, if_neg (hb c List.mem_cons_self), hrest]

theorem first_line (file : List U8) :
    ∃ line, (∀ c ∈ line, c ≠ 0x0a) ∧ (file = line ∨ ∃ rest, file = line ++ 0x0a :: rest) := by
  induction file with
  | nil => exact ⟨[], by simp, .inl rfl⟩
  | cons c file ih =>
    by_cases hc : c = 0x0a
    · exact ⟨[], by simp, .inr ⟨file, by rw [hc]; rfl⟩⟩
    · obtain ⟨line, hline, hfile⟩ := ih
      refine ⟨c :: line, ?_, ?_⟩
      · intro d hd
        rcases List.mem_cons.mp hd with rfl | hd
        · exact hc
        · exact hline d hd
      · rcases hfile with rfl | ⟨rest, rfl⟩
        · exact .inl rfl
        · exact .inr ⟨rest, rfl⟩

theorem lines_line (hb : ∀ c ∈ b, c ≠ 0x0a) : lines b = [b] :=
  List.splitOnP_eq_singleton fun c hc => decide_eq_false (hb c hc)

theorem lines_cons (hb : ∀ c ∈ b, c ≠ 0x0a) (rest : List U8) :
    lines (b ++ 0x0a :: rest) = b :: lines rest :=
  List.splitOnP_append_cons_of_forall_mem (fun c hc => decide_eq_false (hb c hc)) 0x0a (by decide)
    rest

theorem lines_induction {motive : List U8 → Prop}
    (last : ∀ line, (∀ c ∈ line, c ≠ 0x0a) → motive line)
    (cons : ∀ line rest, (∀ c ∈ line, c ≠ 0x0a) → motive rest → motive (line ++ 0x0a :: rest))
    (file : List U8) : motive file := by
  induction hlen : file.length using Nat.strongRecOn generalizing file with
  | ind k ih =>
    obtain ⟨line, hline, rfl | ⟨rest, rfl⟩⟩ := first_line file
    · exact last _ hline
    · apply cons line rest hline
      apply ih rest.length _ rest rfl
      rw [← hlen, List.length_append, List.length_cons]
      omega

theorem mem_lines {file line : List U8} (h : line ∈ lines file) : ∀ c ∈ line, c ≠ 0x0a := by
  induction file using lines_induction with
  | last b hb =>
    rw [lines_line hb, List.mem_singleton] at h
    exact h ▸ hb
  | cons b rest hb ih =>
    rw [lines_cons hb, List.mem_cons] at h
    rcases h with rfl | h
    · exact hb
    · exact ih h

theorem foldl_reads {σ : Type u} (step : σ → List U8 → σ)
    (hnewline : ∀ s line, (∀ c ∈ line, c ≠ 0x0a) → step s (line ++ [0x0a]) = step s line)
    (hempty : ∀ s, step s [] = s) {file : List U8} (hshort : ∀ line ∈ lines file, line.length < n)
    {fuel : Nat} (hfuel : file.length ≤ fuel) (s : σ) :
    (reads n fuel file).foldl step s = (lines file).foldl step s := by
  induction file using lines_induction generalizing fuel s with
  | last line hline =>
    rw [lines_line hline] at hshort ⊢
    have hlen := hshort line List.mem_cons_self
    cases fuel with
    | zero =>
      have hnil := List.eq_nil_of_length_eq_zero (Nat.le_zero.mp hfuel)
      rw [hnil]
      exact (hempty s).symm
    | succ fuel =>
      rw [reads]
      by_cases hnil : line = []
      · rw [if_pos hnil, hnil]
        exact (hempty s).symm
      · rw [if_neg hnil, fgets_last hline (Nat.le_of_lt hlen)]
        have hrest : reads n fuel [] = [] := by
          cases fuel with
          | zero => rfl
          | succ fuel => rw [reads, if_pos rfl]
        dsimp only
        rw [hrest]
  | cons line rest hline ih =>
    rw [lines_cons hline] at hshort ⊢
    cases fuel with
    | zero => simp at hfuel
    | succ fuel =>
      have hlen := hshort line List.mem_cons_self
      have hrest : rest.length ≤ fuel := by
        rw [List.length_append, List.length_cons] at hfuel
        omega
      rw [reads, if_neg (by simp), fgets_line hline hlen, List.foldl_cons, List.foldl_cons,
        hnewline s line hline]
      exact ih (fun l hl => hshort l (List.mem_cons_of_mem _ hl)) hrest _

theorem bind_foldlM {σ : Type u} (step : σ → List U8 → Option σ) (bs : List (List U8))
    (s : Option σ) :
    (s.bind fun s => bs.foldlM step s) = bs.foldl (fun s b => s.bind (step · b)) s := by
  induction bs generalizing s with
  | nil => cases s <;> rfl
  | cons b bs ih =>
    rw [List.foldl_cons, ← ih]
    cases s <;> rfl

theorem foldlM_reads {σ : Type u} (step : σ → List U8 → Option σ)
    (hnewline : ∀ s line, (∀ c ∈ line, c ≠ 0x0a) → step s (line ++ [0x0a]) = step s line)
    (hempty : ∀ s, step s [] = some s) {file : List U8}
    (hshort : ∀ line ∈ lines file, line.length < n) {fuel : Nat} (hfuel : file.length ≤ fuel)
    (s : σ) : (reads n fuel file).foldlM step s = (lines file).foldlM step s := by
  have hfold := foldl_reads (fun s b => Option.bind s (step · b)) (fun s line hline => by
    cases s with
    | none => rfl
    | some s => exact hnewline s line hline) (fun s => by
    cases s with
    | none => rfl
    | some s => exact hempty s) hshort hfuel (some s)
  rw [← bind_foldlM, ← bind_foldlM] at hfold
  exact hfold

end Reads

end Toolkit

/-!
## Reading a file

A file that is open for reading: the bytes ahead, and whether a read has come to the end. Reading
up to the end of the file is not coming to the end: that takes a read of more than there is.
`pieces` is what a loop that reads into a buffer sees of a file.
-/

namespace Toolkit

set_option autoImplicit false

structure File where
  rest : List U8
  eof : Bool

namespace File

variable {xs ys : List U8} {e : Bool} {n : Nat}

/-- `fopen` for reading. -/
def opened (bytes : List U8) : File := ⟨bytes, false⟩

def fread (file : File) (n : Nat) : List U8 × File :=
  (file.rest.take n, ⟨file.rest.drop n, file.eof || decide (file.rest.length < n)⟩)

theorem fread_append (h : xs.length = n) : fread ⟨xs ++ ys, e⟩ n = (xs, ⟨ys, e⟩) := by
  have hin : ¬ (xs ++ ys).length < n := by
    rw [List.length_append]
    omega
  subst h
  rw [fread]
  dsimp only
  rw [List.take_left, List.drop_left, decide_eq_false hin, Bool.or_false]

theorem fread_short (h : xs.length < n) : fread ⟨xs, e⟩ n = (xs, ⟨[], true⟩) := by
  rw [fread]
  dsimp only
  rw [List.take_of_length_le (Nat.le_of_lt h), List.drop_of_length_le (Nat.le_of_lt h),
    decide_eq_true h, Bool.or_true]

theorem fread_end (n : Nat) : fread ⟨[], true⟩ n = ([], ⟨[], true⟩) := by
  rw [fread]
  dsimp only
  rw [List.take_nil, List.drop_nil, Bool.true_or]

theorem fread_take (h : n ≤ xs.length) : fread ⟨xs, e⟩ n = (xs.take n, ⟨xs.drop n, e⟩) := by
  rw [fread]
  dsimp only
  rw [decide_eq_false (Nat.not_lt.mpr h), Bool.or_false]

end File

section Pieces

variable {α : Type} {n : Nat} {xs : List α}

/-- Pieces of `n` elements, the last one shorter. -/
def pieces (n : Nat) (xs : List α) : List (List α) :=
  if n = 0 ∨ xs.length = 0 then [] else xs.take n :: pieces n (xs.drop n)
termination_by xs.length
decreasing_by
  rw [List.length_drop]
  omega

@[simp] theorem pieces_nil (n : Nat) : pieces n ([] : List α) = [] := by
  rw [pieces, if_pos (Or.inr List.length_nil)]

theorem pieces_cons (hn : 0 < n) (hx : xs ≠ []) :
    pieces n xs = xs.take n :: pieces n (xs.drop n) := by
  have hlen := List.length_pos_iff.mpr hx
  rw [pieces, if_neg (by omega)]

theorem pieces_short (hx : xs ≠ []) (h : xs.length ≤ n) : pieces n xs = [xs] := by
  have hlen := List.length_pos_iff.mpr hx
  rw [pieces_cons (by omega) hx, List.take_of_length_le h, List.drop_of_length_le h, pieces_nil]

theorem pieces_induction (hn : 0 < n) {motive : List α → Prop} (nil : motive [])
    (cons : ∀ xs, xs ≠ [] → motive (xs.drop n) → motive xs) (xs : List α) : motive xs := by
  induction hk : xs.length using Nat.strongRecOn generalizing xs with
  | ind k ih =>
    by_cases hx : xs = []
    · exact hx ▸ nil
    · have hlen := List.length_pos_iff.mpr hx
      exact cons xs hx (ih _ (by rw [List.length_drop]; omega) _ rfl)

end Pieces

end Toolkit
