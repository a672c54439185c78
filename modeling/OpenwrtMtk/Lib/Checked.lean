import OpenwrtMtk.Lib.Bytes

/-!
# Programs that may leave their memory

A computation on blocks of bytes comes to a value, or leaves the block it reads or writes, or turns
in a loop without end. The bytes it may touch are those of a block between two offsets.
-/

namespace Toolkit

set_option autoImplicit false

universe u v

inductive Fault where
  | outside
  | endless
  deriving DecidableEq

abbrev Checked (α : Type u) := Except Fault α

section Rules

variable {α β : Type u} {x : Checked α} {f : α → Checked β} {a : α} {b : β}

theorem bind_ok (h : x = .ok a) : (x >>= f) = f a := by
  rw [h]
  rfl

theorem bind_eq_ok : (x >>= f) = .ok b ↔ ∃ a, x = .ok a ∧ f a = .ok b := by
  cases x with
  | error e =>
    constructor
    · intro h
      cases h
    · rintro ⟨a, h, _⟩
      cases h
  | ok a =>
    constructor
    · intro h
      exact ⟨a, rfl, h⟩
    · rintro ⟨a', h, hf⟩
      cases h
      exact hf

/-- `x` comes to a value. -/
def Ends (x : Checked α) : Prop := ∃ a, x = .ok a

theorem Ends.intro (h : x = .ok a) : Ends x := ⟨a, h⟩

theorem ends_pure (a : α) : Ends (pure a : Checked α) := ⟨a, rfl⟩

theorem ends_ok (a : α) : Ends (.ok a : Checked α) := ⟨a, rfl⟩

theorem Ends.error {e : Fault} : ¬Ends (.error e : Checked α) := by
  rintro ⟨a, h⟩
  cases h

theorem ends_bind : Ends (x >>= f) ↔ ∃ a, x = .ok a ∧ Ends (f a) := by
  constructor
  · rintro ⟨b, h⟩
    obtain ⟨a, ha, hf⟩ := bind_eq_ok.mp h
    exact ⟨a, ha, b, hf⟩
  · rintro ⟨a, ha, b, hf⟩
    exact ⟨b, bind_eq_ok.mpr ⟨a, ha, hf⟩⟩

theorem ends_bind_of_ends (h : ∀ a, Ends (f a)) : Ends (x >>= f) ↔ Ends x := by
  rw [ends_bind]
  exact ⟨fun ⟨a, ha, _⟩ => ⟨a, ha⟩, fun ⟨a, ha⟩ => ⟨a, ha, h a⟩⟩

/-- A loop over a list ends if and only if its body does, which is the same in every turn. -/
theorem ends_foldlM {γ : Type u} {g : β → γ → Checked β} {C : Prop} (Inv : β → Prop)
    (hends : ∀ b c, Inv b → (Ends (g b c) ↔ C)) (hinv : ∀ b c b', Inv b → g b c = .ok b' → Inv b')
    (cs : List γ) (hb : Inv b) : Ends (cs.foldlM g b) ↔ (cs ≠ [] → C) := by
  induction cs generalizing b with
  | nil => exact ⟨fun _ h => absurd rfl h, fun _ => ⟨b, rfl⟩⟩
  | cons c cs ih =>
    rw [List.foldlM_cons, ends_bind]
    constructor
    · rintro ⟨b', hg, _⟩ _
      exact (hends b c hb).mp ⟨b', hg⟩
    · intro h
      have hc := h (List.cons_ne_nil c cs)
      obtain ⟨b', hg⟩ := (hends b c hb).mpr hc
      exact ⟨b', hg, (ih (hinv b c b' hb hg)).mpr fun _ => hc⟩

theorem foldlM_keeps {γ : Type u} {g : β → γ → Checked β} {b' : β} (Inv : β → Prop)
    (hinv : ∀ b c b', Inv b → g b c = .ok b' → Inv b') {cs : List γ} (hb : Inv b)
    (h : cs.foldlM g b = .ok b') : Inv b' := by
  induction cs generalizing b with
  | nil =>
    cases h
    exact hb
  | cons c cs ih =>
    rw [List.foldlM_cons] at h
    obtain ⟨b'', hg, h⟩ := bind_eq_ok.mp h
    exact ih (hinv b c b'' hb hg) h

end Rules

section Inside

def orOutside {α : Type u} : Option α → Checked α
  | some a => .ok a
  | none => .error .outside

theorem orOutside_eq_ok {α : Type u} {x : Option α} {a : α} : orOutside x = .ok a ↔ x = some a := by
  cases x with
  | none => exact ⟨nofun, nofun⟩
  | some b =>
    constructor
    · intro h
      cases h
      rfl
    · intro h
      cases h
      rfl

theorem ends_orOutside {α β : Type u} {x : Option α} {f : α → Checked β} :
    Ends (orOutside x >>= f) ↔ ∃ a, x = some a ∧ Ends (f a) := by
  cases x with
  | none =>
    constructor
    · intro h
      exact absurd h Ends.error
    · rintro ⟨a, h, _⟩
      cases h
  | some a =>
    constructor
    · intro h
      exact ⟨a, rfl, h⟩
    · rintro ⟨a', h, hf⟩
      cases h
      exact hf

theorem ends_orOutside_if {β : Type} {x : Option Bool} {y z : Checked β} (hz : Ends z) :
    Ends (orOutside x >>= fun b => if b then y else z) ↔ x ≠ none ∧ (x = some true → Ends y) := by
  rw [ends_orOutside]
  constructor
  · rintro ⟨b, rfl, h⟩
    refine ⟨nofun, fun heq => ?_⟩
    cases heq
    exact h
  · rintro ⟨hsome, h⟩
    cases x with
    | none => exact absurd rfl hsome
    | some b =>
      cases b with
      | true => exact ⟨true, rfl, h rfl⟩
      | false => exact ⟨false, rfl, hz⟩

end Inside

section Blocks

variable {block bytes : List U8} {start stop off n : Nat}

/-- `n` bytes at `off`, all of which are to be between `start` and `stop`. -/
def loadIn (block : List U8) (start stop off n : Nat) : Checked (List U8) :=
  if start ≤ off ∧ off + n ≤ stop then .ok (slice block off n) else .error .outside

def storeIn (block : List U8) (start stop off : Nat) (bytes : List U8) : Checked (List U8) :=
  if start ≤ off ∧ off + bytes.length ≤ stop then .ok (overwrite block off bytes)
  else .error .outside

def byteIn (block : List U8) (start stop off : Nat) : Checked U8 :=
  if start ≤ off ∧ off < stop then .ok (block.getD off 0) else .error .outside

def load (block : List U8) (off n : Nat) : Checked (List U8) :=
  loadIn block 0 block.length off n

def store (block : List U8) (off : Nat) (bytes : List U8) : Checked (List U8) :=
  storeIn block 0 block.length off bytes

def loadByte (block : List U8) (off : Nat) : Checked U8 := byteIn block 0 block.length off

theorem loadIn_ok (hstart : start ≤ off) (hstop : off + n ≤ stop) :
    loadIn block start stop off n = .ok (slice block off n) := if_pos ⟨hstart, hstop⟩

theorem storeIn_ok (hstart : start ≤ off) (hstop : off + bytes.length ≤ stop) :
    storeIn block start stop off bytes = .ok (overwrite block off bytes) := if_pos ⟨hstart, hstop⟩

theorem byteIn_ok (hstart : start ≤ off) (hstop : off < stop) :
    byteIn block start stop off = .ok (block.getD off 0) := if_pos ⟨hstart, hstop⟩

theorem load_ok (h : off + n ≤ block.length) : load block off n = .ok (slice block off n) :=
  loadIn_ok (Nat.zero_le _) h

theorem store_ok (h : off + bytes.length ≤ block.length) :
    store block off bytes = .ok (overwrite block off bytes) := storeIn_ok (Nat.zero_le _) h

theorem loadByte_ok (h : off < block.length) : loadByte block off = .ok (block.getD off 0) :=
  byteIn_ok (Nat.zero_le _) h

theorem loadIn_eq_ok : loadIn block start stop off n = .ok bytes ↔
    (start ≤ off ∧ off + n ≤ stop) ∧ slice block off n = bytes := by
  unfold loadIn
  split
  · rename_i h
    constructor
    · intro heq
      exact ⟨h, Except.ok.inj heq⟩
    · rintro ⟨_, rfl⟩
      rfl
  · rename_i h
    constructor
    · intro heq
      cases heq
    · rintro ⟨hin, _⟩
      exact absurd hin h

theorem byteIn_eq_ok {b : U8} : byteIn block start stop off = .ok b ↔
    (start ≤ off ∧ off < stop) ∧ block.getD off 0 = b := by
  unfold byteIn
  split
  · rename_i h
    constructor
    · intro heq
      exact ⟨h, Except.ok.inj heq⟩
    · rintro ⟨_, rfl⟩
      rfl
  · rename_i h
    constructor
    · intro heq
      cases heq
    · rintro ⟨hin, _⟩
      exact absurd hin h

section

variable {β : Type} {f : List U8 → Checked β} {g : U8 → Checked β}

theorem ends_load : Ends (load block off n >>= f) ↔
    off + n ≤ block.length ∧ Ends (f (slice block off n)) := by
  constructor
  · intro h
    obtain ⟨bytes, hload, hf⟩ := ends_bind.mp h
    obtain ⟨hin, rfl⟩ := loadIn_eq_ok.mp hload
    exact ⟨hin.2, hf⟩
  · rintro ⟨hin, hf⟩
    rw [bind_ok (load_ok hin)]
    exact hf

theorem ends_store : Ends (store block off bytes >>= f) ↔
    off + bytes.length ≤ block.length ∧ Ends (f (overwrite block off bytes)) := by
  by_cases h : off + bytes.length ≤ block.length
  · rw [bind_ok (store_ok h)]
    exact ⟨fun hf => ⟨h, hf⟩, fun hf => hf.2⟩
  · have hstore : store block off bytes = .error .outside := if_neg fun hin => h hin.2
    rw [hstore]
    exact iff_of_false Ends.error fun hf => h hf.1

theorem ends_loadByte : Ends (loadByte block off >>= g) ↔
    off < block.length ∧ Ends (g (block.getD off 0)) := by
  constructor
  · intro h
    obtain ⟨b, hload, hg⟩ := ends_bind.mp h
    obtain ⟨hin, rfl⟩ := byteIn_eq_ok.mp hload
    exact ⟨hin.2, hg⟩
  · rintro ⟨hin, hg⟩
    rw [bind_ok (loadByte_ok hin)]
    exact hg

end

end Blocks

/-- `a - b` of unsigned words of 32 bits. -/
def sizeSub (a b : Nat) : Nat := (a + 2 ^ 32 - b) % 2 ^ 32

theorem sizeSub_of_le {a b : Nat} (h : b ≤ a) (ha : a < 2 ^ 32) : sizeSub a b = a - b := by
  unfold sizeSub
  omega

end Toolkit
