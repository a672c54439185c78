import Mathlib.Data.List.DropRight
import Mathlib.Data.List.TakeWhile
import OpenwrtMtk.Lib.Files
import OpenwrtMtk.Uci2dat.Config
import OpenwrtMtk.Uci2dat.Parsed

/-!
# Reading and writing a DAT file

`parse_dat` and `gen_dat`. A key or a value that fills its buffer is not terminated, and a value is
printed as a format: what reads behind the buffer and a conversion without an argument have no result.
-/

namespace OpenwrtMtk.Uci2dat

open Toolkit

set_option autoImplicit false

section ParseDat

def lineBuffer : Nat := 1024

/-- `sizeof(k)` and `sizeof(v)`. -/
def entryBuffer : Nat := 512

def isBlank (c : U8) : Bool := c = 0x20 || c = 0x09

def beforeTail (c : U8) : Bool := c ≠ 0x0a && c ≠ 0x0d

/-- What a line from its first character on stores: a key and a value, or nothing. -/
def parseText (p : List U8) : Option (Option (List U8 × List U8)) :=
  if p = [] ∨ p.head? = some 0x0d ∨ p.head? = some 0x0a ∨ p.head? = some 0x23 then some none
  else
    let p := p.takeWhile beforeTail
    match p.dropWhile (· ≠ 0x3d) with
    | [] => some none
    | _ :: v =>
      let k := p.takeWhile (· ≠ 0x3d)
      if entryBuffer ≤ k.length ∨ entryBuffer ≤ v.length then none else some (some (k, v))

def parseLine (buffer : List U8) : Option (Option (List U8 × List U8)) :=
  parseText ((buffer.takeWhile (· ≠ 0)).dropWhile isBlank)

def Param.isFor (p : Param) (k : List U8) : Bool := p.datKey.map bytes = some k

/-- `__extra_cfgs__`. -/
abbrev ExtraCfgs := List (List U8 × List U8)

/-- The value is put into the table, or a configuration of its own is made for it. -/
def store (s : List Param × ExtraCfgs) (entry : List U8 × List U8) : List Param × ExtraCfgs :=
  match cfgElements.findIdx? (·.isFor entry.1) with
  | some n => (s.1.modify n fun p => { p with value := some entry.2 }, s.2)
  | none => (s.1, entry :: s.2)

def datStep (s : List Param × ExtraCfgs) (buffer : List U8) : Option (List Param × ExtraCfgs) :=
  (parseLine buffer).map fun entry => (entry.map (store s)).getD s

/-- The loops that compare all devices and take the last of this name. -/
def lastFrom (name : List U8) (i : Nat) (last : Option Nat) :
    List WifiParams → Option (Option Nat)
  | [] => some last
  | cfg :: cfgs => do
    if ← sameName name cfg.devname then lastFrom name (i + 1) (some i) cfgs
    else lastFrom name (i + 1) last cfgs

def lastDevice (name : List U8) (cfgs : List WifiParams) : Option (Option Nat) :=
  lastFrom name 0 none cfgs

def parseDat (devname file : List U8) (cfgs : List WifiParams) :
    Option (List WifiParams × ExtraCfgs) := do
  match ← lastDevice devname cfgs with
  | none => return (cfgs, [])
  | some i =>
    let cfg ← cfgs[i]?
    let (params, extra) ←
      (reads (lineBuffer - 1) file.length file).foldlM datStep (cfg.params, [])
    return (cfgs.set i { cfg with params }, extra)

end ParseDat

section GenDat

/-- What `fprintf(fp, format)` prints. -/
def printFormat : List U8 → Option (List U8)
  | [] => some []
  | [c] => if c = 0x25 then none else some [c]
  | c :: d :: format =>
    if c = 0x25 then
      if d = 0x25 then (printFormat format).map (0x25 :: ·) else none
    else (printFormat (d :: format)).map (c :: ·)

/-- The lines for the table; `hookCfg` is the device that `hooker` finds. -/
def genParams : List Param → Option WifiParams → Option (List (List U8))
  | [], _ => some []
  | p :: params, hookCfg =>
    match p.datKey, p.value with
    | some k, some v => do
      let text ←
        (if p.hook then some ((hookCfg.map fun cfg => hooker cfg k v).getD []) else printFormat v)
      let rest ← genParams params (if p.hook then hookCfg.map (hookerEffect · k) else hookCfg)
      return (bytes k ++ 0x3d :: text) :: rest
    | _, _ => genParams params hookCfg

def genExtra (extra : ExtraCfgs) : Option (List (List U8)) :=
  extra.mapM fun x => (printFormat x.2).map fun text => x.1 ++ 0x3d :: text

/-- The lines of the file that `gen_dat` writes, if it finds the device. -/
def genDat (devname : List U8) (cfgs : List WifiParams) (extra : ExtraCfgs) :
    Option (Option (List (List U8))) := do
  match ← lastDevice devname cfgs with
  | none => return none
  | some i =>
    let cfg ← cfgs[i]?
    let n ← findDevice cfg.devname cfgs
    let known ← genParams cfg.params (n.bind (cfgs[·]?))
    let unknown ← genExtra extra
    return some ([bytes "# Generated by uci2dat",
      bytes "# The word of \"Default\" must not be removed", bytes "Default"] ++ known ++ unknown)

end GenDat

def uci2dat (devname file : List U8) (package : Package) : Option (Option (List (List U8))) := do
  let (cfgs, extra) ← parseDat devname file (initWifiCfg package)
  let cfgs ← parseUci cfgs package
  genDat devname cfgs extra

end OpenwrtMtk.Uci2dat

/-!
## Lines of a DAT file

A line `k=v`, and what `parse_dat` stores for it: what stands before a carriage return or a zero
byte.
-/

namespace OpenwrtMtk.Uci2dat

open Toolkit

set_option autoImplicit false

def isText (c : U8) : Bool := c ≠ 0 && c ≠ 0x0d

def splitEntry (l : List U8) : Option (List U8 × List U8) :=
  if l.head? = some 0x23 ∨ 0x3d ∉ l then none
  else some (l.takeWhile (· ≠ 0x3d), (l.dropWhile (· ≠ 0x3d)).tail)

/-- A line `k=v`, without leading blanks and the tail of carriage returns. -/
def entry (line : List U8) : Option (List U8 × List U8) :=
  splitEntry ((line.dropWhile isBlank).rdropWhile (· = 0x0d))

def entries (file : List U8) : List (List U8 × List U8) := (lines file).filterMap entry

def storedEntry (x : List U8 × List U8) : Option (List U8 × List U8) :=
  if x.1.all isText then some (x.1, x.2.takeWhile isText) else none

def Fits (x : List U8 × List U8) : Prop := x.1.length < entryBuffer ∧ x.2.length < entryBuffer

section Text

variable {p q : U8 → Bool}

theorem dropWhile_takeWhile (h : ∀ c, q c = true → p c = true) (xs : List U8) :
    (xs.takeWhile p).dropWhile q = (xs.dropWhile q).takeWhile p := by
  induction xs with
  | nil => rfl
  | cons c xs ih =>
    by_cases hq : q c = true
    · rw [List.takeWhile_cons_of_pos (h c hq), List.dropWhile_cons_of_pos hq,
        List.dropWhile_cons_of_pos hq, ih]
    · rw [List.dropWhile_cons_of_neg hq]
      by_cases hp : p c = true
      · rw [List.takeWhile_cons_of_pos hp, List.dropWhile_cons_of_neg hq]
      · rw [List.takeWhile_cons_of_neg hp]
        rfl

theorem takeWhile_append_neg {xs ys : List U8} (h : ∀ c ∈ ys, ¬ p c = true) :
    (xs ++ ys).takeWhile p = xs.takeWhile p := by
  induction xs with
  | nil =>
    cases ys with
    | nil => rfl
    | cons c ys => exact List.takeWhile_cons_of_neg (h c List.mem_cons_self)
  | cons c xs ih =>
    rw [List.cons_append]
    by_cases hc : p c = true
    · rw [List.takeWhile_cons_of_pos hc, List.takeWhile_cons_of_pos hc, ih]
    · rw [List.takeWhile_cons_of_neg hc, List.takeWhile_cons_of_neg hc]

theorem dropWhile_eq_cons {xs : List U8} (h : 0x3d ∈ xs) :
    xs.dropWhile (· ≠ 0x3d) = 0x3d :: (xs.dropWhile (· ≠ 0x3d)).tail := by
  induction xs with
  | nil => cases h
  | cons c xs ih =>
    by_cases hc : c = 0x3d
    · rw [hc]
      rfl
    · rw [List.dropWhile_cons_of_pos (by simpa using hc)]
      exact ih ((List.mem_cons.mp h).resolve_left (Ne.symm hc))

theorem parseText_eq (xs : List U8) :
    parseText xs =
      match splitEntry (xs.takeWhile beforeTail) with
      | none => some none
      | some x => if entryBuffer ≤ x.1.length ∨ entryBuffer ≤ x.2.length then none
          else some (some x) := by
  unfold parseText splitEntry
  cases xs with
  | nil => rfl
  | cons c xs =>
    by_cases hc : beforeTail c = true
    · have hends : c ≠ 0x0a ∧ c ≠ 0x0d := by simpa [beforeTail] using hc
      rw [List.takeWhile_cons_of_pos hc]
      by_cases hcomment : c = 0x23
      · subst hcomment
        rfl
      · have hskip : ¬ (c :: xs = [] ∨ (c :: xs).head? = some 0x0d ∨ (c :: xs).head? = some 0x0a ∨
            (c :: xs).head? = some 0x23) := by
          rintro (h | h | h | h)
          · cases h
          · exact hends.2 (Option.some.inj h)
          · exact hends.1 (Option.some.inj h)
          · exact hcomment (Option.some.inj h)
        rw [if_neg hskip]
        dsimp only
        have hhead : ¬ (c :: xs.takeWhile beforeTail).head? = some 0x23 :=
          fun h => hcomment (Option.some.inj h)
        by_cases hsign : 0x3d ∈ c :: xs.takeWhile beforeTail
        · rw [if_neg (not_or.mpr ⟨hhead, not_not.mpr hsign⟩), dropWhile_eq_cons hsign]
          rfl
        · have hnone : (c :: xs.takeWhile beforeTail).dropWhile (· ≠ 0x3d) = [] := by
            rw [List.dropWhile_eq_nil_iff]
            intro d hd
            exact decide_eq_true (ne_of_mem_of_not_mem hd hsign)
          rw [if_pos (.inr hsign), hnone]
    · have hends : c = 0x0a ∨ c = 0x0d := by
        simpa [beforeTail, ← or_iff_not_imp_left] using hc
      rw [List.takeWhile_cons_of_neg hc]
      rcases hends with rfl | rfl
      · rfl
      · rfl

def inLine (c : U8) : Bool := isText c && c ≠ 0x0a

theorem parseLine_eq_split (xs : List U8) :
    parseLine xs =
      match splitEntry ((xs.dropWhile isBlank).takeWhile inLine) with
      | none => some none
      | some x => if entryBuffer ≤ x.1.length ∨ entryBuffer ≤ x.2.length then none
          else some (some x) := by
  have hblank : ∀ c, isBlank c = true → decide (c ≠ 0) = true := by
    intro c hc
    rw [decide_eq_true_eq]
    rintro rfl
    exact absurd hc (by decide)
  have hboth : (xs.dropWhile isBlank |>.takeWhile (· ≠ 0)).takeWhile beforeTail =
      (xs.dropWhile isBlank).takeWhile inLine := by
    rw [List.takeWhile_takeWhile]
    congr 1
    funext c
    simp only [beforeTail, inLine, isText, Bool.and_eq_true, decide_eq_true_eq, Bool.decide_and]
    rw [Bool.and_comm, Bool.and_assoc, Bool.and_comm (decide (c ≠ 0x0a))]
  rw [parseLine, dropWhile_takeWhile hblank, parseText_eq, hboth]

theorem parseLine_newline (line : List U8) :
    parseLine (line ++ [0x0a]) = parseLine line := by
  have hstop : ((line ++ [0x0a]).dropWhile isBlank).takeWhile inLine =
      (line.dropWhile isBlank).takeWhile inLine := by
    induction line with
    | nil => rfl
    | cons c line ih =>
      by_cases hc : isBlank c = true
      · rw [List.cons_append, List.dropWhile_cons_of_pos hc, List.dropWhile_cons_of_pos hc, ih]
      · rw [List.cons_append, List.dropWhile_cons_of_neg hc, List.dropWhile_cons_of_neg hc,
          ← List.cons_append]
        refine takeWhile_append_neg ?_
        intro d hd
        rw [List.mem_singleton.mp hd]
        decide
  rw [parseLine_eq_split, parseLine_eq_split, hstop]

theorem splitEntry_append {k v : List U8} (hk : 0x3d ∉ k) :
    splitEntry (k ++ 0x3d :: v) = if k.head? = some 0x23 then none else some (k, v) := by
  have hall : ∀ c ∈ k, decide (c ≠ 0x3d) = true := fun c hc =>
    decide_eq_true (ne_of_mem_of_not_mem hc hk)
  have hhead : (k ++ 0x3d :: v).head? = some 0x23 ↔ k.head? = some 0x23 := by
    cases k with
    | nil => exact iff_of_false (fun h => absurd (Option.some.inj h) (by decide)) (by simp)
    | cons c k => rfl
  have hsides : (k ++ 0x3d :: v).takeWhile (· ≠ 0x3d) = k ∧
      ((k ++ 0x3d :: v).dropWhile (· ≠ 0x3d)).tail = v := by
    rw [List.takeWhile_append_of_pos hall, List.dropWhile_append_of_pos hall]
    simp
  unfold splitEntry
  rw [hsides.1, hsides.2]
  by_cases hcomment : k.head? = some 0x23
  · rw [if_pos hcomment, if_pos (.inl (hhead.mpr hcomment))]
  · rw [if_neg hcomment, if_neg]
    rintro (h | h)
    · exact hcomment (hhead.mp h)
    · exact h (by simp)

theorem splitEntry_takeWhile (r : List U8) :
    splitEntry (r.takeWhile isText) = (splitEntry r).bind storedEntry := by
  by_cases hsign : 0x3d ∈ r
  · obtain ⟨k, v, rfl, hk⟩ := List.eq_append_cons_of_mem hsign
    rw [splitEntry_append hk]
    by_cases htext : k.all isText = true
    · have hall : ∀ c ∈ k, isText c = true := List.all_eq_true.mp htext
      have hcut : (k ++ 0x3d :: v).takeWhile isText = k ++ 0x3d :: v.takeWhile isText := by
        rw [List.takeWhile_append_of_pos hall]
        rfl
      rw [hcut, splitEntry_append hk]
      split
      · rfl
      · rw [Option.bind_some, storedEntry, if_pos htext]
    · have hnone : 0x3d ∉ (k ++ 0x3d :: v).takeWhile isText := by
        intro hmem
        apply htext
        rw [List.all_eq_true]
        by_contra hbad
        push Not at hbad
        obtain ⟨c, hc, hbad⟩ := hbad
        obtain ⟨front, back, rfl⟩ := List.append_of_mem hc
        have hfront : (front ++ c :: back ++ 0x3d :: v).takeWhile isText =
            front.takeWhile isText := by
          rw [List.append_assoc, List.takeWhile_append, List.cons_append,
            List.takeWhile_cons_of_neg hbad]
          split
          · rename_i hlen
            rw [List.append_nil]
            exact ((List.takeWhile_prefix _).eq_of_length hlen).symm
          · rfl
        rw [hfront] at hmem
        exact hk (List.mem_append_left _ ((List.takeWhile_prefix _).subset hmem))
      rw [splitEntry, if_pos (.inr hnone)]
      split
      · rfl
      · rw [Option.bind_some, storedEntry, if_neg htext]
  · have hnone : 0x3d ∉ r.takeWhile isText := fun h => hsign ((List.takeWhile_prefix _).subset h)
    rw [splitEntry, splitEntry, if_pos (.inr hnone), if_pos (.inr hsign)]
    rfl

theorem parseLine_eq {line : List U8} (h : ∀ c ∈ line, c ≠ 0x0a) :
    parseLine line =
      match (entry line).bind storedEntry with
      | none => some none
      | some x => if entryBuffer ≤ x.1.length ∨ entryBuffer ≤ x.2.length then none
          else some (some x) := by
  have htail : ∀ c ∈ (line.dropWhile isBlank).rtakeWhile (· = 0x0d), ¬ inLine c = true := by
    intro c hc
    have hcr := List.mem_rtakeWhile_imp hc
    rw [decide_eq_true_eq] at hcr
    rw [hcr]
    decide
  have hcut : (line.dropWhile isBlank).takeWhile inLine =
      ((line.dropWhile isBlank).rdropWhile (· = 0x0d)).takeWhile isText := by
    conv_lhs =>
      rw [← List.rdropWhile_append_rtakeWhile (p := fun c => decide (c = 0x0d))
        (l := line.dropWhile isBlank)]
    rw [takeWhile_append_neg htail]
    have hmem : ∀ c ∈ (line.dropWhile isBlank).rdropWhile (· = 0x0d), c ≠ 0x0a := fun c hc =>
      h c ((List.dropWhile_suffix _).subset ((List.rdropWhile_prefix _ _).subset hc))
    generalize (line.dropWhile isBlank).rdropWhile (· = 0x0d) = r at hmem
    induction r with
    | nil => rfl
    | cons c r ih =>
      have hc : inLine c = isText c := by
        rw [inLine, decide_eq_true (hmem c List.mem_cons_self), Bool.and_true]
      rw [List.takeWhile_cons, List.takeWhile_cons, hc,
        ih fun d hd => hmem d (List.mem_cons_of_mem _ hd)]
  rw [parseLine_eq_split, hcut, splitEntry_takeWhile]
  rfl

end Text

end OpenwrtMtk.Uci2dat
