import Mathlib.Data.List.TakeWhile
import OpenwrtMtk.Luci.PoAccess

/-!
# The bounds of po2lmo's buffers

What may leave the buffers is the `strcat` of a further line: nothing bounds what it appends to, and
`tmp` ends only where the line has its closing quote. A run is safe if and only if each of its rounds
fits. A run that makes an archive in `po2lmo` is safe.
-/

namespace OpenwrtMtk.Luci

open Toolkit

set_option autoImplicit false

namespace PoAccess

structure Kept (b : PoBuffers) : Prop where
  key : ∃ k, Holds b.key k
  val : ∃ v, Holds b.val v
  tmp : b.tmp.length = poBuffer
  idle : b.state = .idle → b.key = cleared
  fresh : b.state = .idle ∨ b.state = .emptyMsgid ∨ b.state = .msgid → b.val = cleared

structure Ready (b : PoBuffers) : Prop extends Kept b where
  line : b.line = cleared
  running : b.state ≠ .complete

def appendsTo (b : PoBuffers) (l : List U8) : Option (List U8) :=
  match b.state with
  | .emptyMsgid => if (latin "msgstr \"").isPrefixOf l then none else some b.key
  | .msgstr => some b.val
  | _ => none

def Fits (b : PoBuffers) (l : List U8) : Prop :=
  ∀ dest d q, appendsTo b l = some dest → cstr dest = some d → quotedOn l = some q →
    ∃ s, appended b.tmp q = some s ∧ d.length + s.length < poBuffer

/-- The next line, as the string that `fgets` leaves. -/
def lineOf (file : List U8) : List U8 := (fgets (poBuffer - 1) file).1.takeWhile (· ≠ 0)

section Rounds

variable {b b' : PoBuffers} {file l line tmp dest d : List U8}

theorem holds_cleared : Holds cleared [] := holds_zeros

theorem append_cases (hl : Holds line l) (htmp : tmp.length = poBuffer) (hd : Holds dest d)
    (x : List U8 → PoBuffers) (y : List U8 → List U8 → PoBuffers)
    {run : Checked (Option PoBuffers)} (hrun : run = (extractString line tmp >>= fun r =>
      if r.1 = -1 then return some (x r.2)
      else strcat dest r.2 >>= fun e => return some (y e r.2))) :
    (quotedOn l = none ∧ run = .ok (some (x tmp))) ∨
    (∃ q, quotedOn l = some q ∧ ∃ s, appended tmp q = some s ∧ d.length + s.length < poBuffer ∧
      ∃ e tmp', Holds e (d ++ s) ∧ Holds tmp' s ∧ run = .ok (some (y e tmp'))) ∨
    (∃ q, quotedOn l = some q ∧
      (¬∃ s, appended tmp q = some s ∧ d.length + s.length < poBuffer) ∧ run = .error .outside) := by
  cases hq : quotedOn l with
  | none =>
    apply Or.inl
    refine ⟨rfl, ?_⟩
    rw [hrun, bind_ok (extractString_none hl htmp hq)]
    rfl
  | some q =>
    apply Or.inr
    cases hs : appended tmp q with
    | none =>
      apply Or.inr
      refine ⟨q, rfl, ?_, ?_⟩
      · rintro ⟨s, h, -⟩
        rw [hs] at h
        cases h
      · rw [hrun, extractString_fails hl htmp hq hs]
        rfl
    | some s =>
      obtain ⟨tmp', hextract, htmp'⟩ := extractString_ok hl htmp hq hs
      have hlen : ((s.length : Int), tmp').1 ≠ -1 := by
        dsimp only
        omega
      by_cases hroom : d.length + s.length < poBuffer
      · obtain ⟨e, hcat, he⟩ := strcat_ok hd htmp' hroom
        apply Or.inl
        refine ⟨q, rfl, s, hs, hroom, e, tmp', he, htmp', ?_⟩
        rw [hrun, bind_ok hextract, if_neg hlen, bind_ok hcat]
        rfl
      · apply Or.inr
        refine ⟨q, rfl, ?_, ?_⟩
        · rintro ⟨s', h, hlt⟩
          rw [hs] at h
          cases h
          exact hroom hlt
        · rw [hrun, bind_ok hextract, if_neg hlen, strcat_fails hd htmp' hroom]
          rfl

theorem extract_cleared (hl : Holds line l) :
    ∃ n dest s, extractString line cleared = .ok (n, dest) ∧ Holds dest s ∧
      (quotedOn l ≠ none → n ≠ -1) := by
  cases hq : quotedOn l with
  | none =>
    exact ⟨-1, cleared, [], extractString_none hl List.length_replicate hq, holds_cleared,
      fun h => absurd rfl h⟩
  | some q =>
    have hlen : q.1.length ≤ (laid q).length := by
      rw [laid, List.length_append]
      omega
    obtain ⟨dest, hextract, hholds⟩ := extractString_ok hl List.length_replicate hq
      (appended_cleared (Nat.lt_of_le_of_lt hlen (length_laid hl hq)))
    refine ⟨_, dest, q.1, hextract, hholds, fun _ => ?_⟩
    omega

theorem scanValue_ok (hb : Kept b) (hl : Holds b.line l) (hval : b.val = cleared) :
    ∃ b', scanValue b = .ok (some b') ∧ Kept b' := by
  obtain ⟨n, val, s, hextract, hs, -⟩ := extract_cleared hl
  rw [scanValue, hval, bind_ok hextract]
  refine ⟨_, rfl, hb.key, ⟨s, hs⟩, hb.tmp, ?_, ?_⟩
  · dsimp only
    split <;> nofun
  · dsimp only
    split <;> simp

theorem begins_ok (hl : Holds line l) (text : String) :
    begins line text = .ok ((latin text).isPrefixOf l) := by
  rw [begins, bind_ok (stringIn_holds hl)]
  rfl

theorem scan_appends (htmp : b.tmp.length = poBuffer) (hl : Holds b.line l)
    (hto : appendsTo b l = some dest) (hd : Holds dest d) {x : List U8 → PoBuffers}
    {y : List U8 → List U8 → PoBuffers}
    (hrun : scan b = (extractString b.line b.tmp >>= fun r =>
      if r.1 = -1 then return some (x r.2)
      else strcat dest r.2 >>= fun e => return some (y e r.2)))
    (hx : Kept (x b.tmp)) (hy : ∀ e t s, Holds e (d ++ s) → Holds t s → Kept (y e t)) :
    (Fits b l ∧ ∃ b', scan b = .ok (some b') ∧ Kept b') ∨ (¬Fits b l ∧ scan b = .error .outside) := by
  rcases append_cases hl htmp hd x y hrun with
    ⟨hq, h⟩ | ⟨q, hq, s, hs, hroom, e, t, he, ht, h⟩ | ⟨q, hq, hnot, h⟩
  · apply Or.inl
    refine ⟨?_, x b.tmp, h, hx⟩
    intro _ _ q _ _ hq'
    rw [hq] at hq'
    cases hq'
  · apply Or.inl
    refine ⟨?_, y e t, h, hy e t s he ht⟩
    intro dest' d' q' hto' hd' hq'
    rw [hto] at hto'
    cases hto'
    rw [hd.2] at hd'
    cases hd'
    rw [hq] at hq'
    cases hq'
    exact ⟨s, hs, hroom⟩
  · apply Or.inr
    exact ⟨fun hfits => hnot (hfits dest d q hto hd.2 hq), h⟩

theorem scan_cases (hb : Kept b) (hl : Holds b.line l) (hrun : b.state ≠ .complete) :
    (Fits b l ∧ (scan b = .ok none ∨ ∃ b', scan b = .ok (some b') ∧ Kept b')) ∨
    (¬Fits b l ∧ scan b = .error .outside) := by
  have hnone (h : appendsTo b l = none) : Fits b l := by
    intro dest d q hdest
    rw [h] at hdest
    cases hdest
  have hweak (h : (Fits b l ∧ ∃ b', scan b = .ok (some b') ∧ Kept b') ∨
      (¬Fits b l ∧ scan b = .error .outside)) :
      (Fits b l ∧ (scan b = .ok none ∨ ∃ b', scan b = .ok (some b') ∧ Kept b')) ∨
        (¬Fits b l ∧ scan b = .error .outside) :=
    h.imp_left fun h => ⟨h.1, Or.inr h.2⟩
  obtain ⟨v, hv⟩ := hb.val
  obtain ⟨k, hk⟩ := hb.key
  cases hstate : b.state with
  | idle =>
    apply Or.inl
    refine ⟨hnone (by rw [appendsTo, hstate]), ?_⟩
    rw [scan, hstate]
    dsimp only
    rw [bind_ok (begins_ok hl _)]
    split
    · obtain ⟨n, key, s, hextract, hs, -⟩ := extract_cleared hl
      rw [hb.idle hstate, bind_ok hextract]
      dsimp only
      split
      · exact Or.inl rfl
      · apply Or.inr
        refine ⟨_, rfl, ⟨s, hs⟩, hb.val, hb.tmp, ?_, fun _ => hb.fresh (Or.inl hstate)⟩
        dsimp only
        split <;> nofun
    · exact Or.inr ⟨b, rfl, hb⟩
  | emptyMsgid =>
    have hfresh := hb.fresh (Or.inr (Or.inl hstate))
    have hscan : scan b = (begins b.line "msgstr \"" >>= fun r =>
        if r = true then scanValue b
        else extractString b.line b.tmp >>= fun r =>
          if r.1 = -1 then return some { b with state := .msgid, tmp := r.2 }
          else strcat b.key r.2 >>= fun e => return some { b with key := e, tmp := r.2 }) := by
      rw [scan, hstate]
    rw [bind_ok (begins_ok hl _)] at hscan
    by_cases hword : (latin "msgstr \"").isPrefixOf l = true
    · rw [if_pos hword] at hscan
      apply Or.inl
      refine ⟨hnone (by rw [appendsTo, hstate]; exact if_pos hword), ?_⟩
      rw [hscan]
      exact Or.inr (scanValue_ok hb hl hfresh)
    · rw [if_neg hword] at hscan
      have hto : appendsTo b l = some b.key := by
        rw [appendsTo, hstate]
        exact if_neg hword
      apply hweak
      apply scan_appends hb.tmp hl hto hk hscan
      · exact ⟨hb.key, hb.val, hb.tmp, nofun, fun _ => hfresh⟩
      · intro e t s he ht
        exact ⟨⟨_, he⟩, hb.val, ht.1, fun h => absurd (hstate.symm.trans h) nofun, fun _ => hfresh⟩
  | msgid =>
    apply Or.inl
    refine ⟨hnone (by rw [appendsTo, hstate]), ?_⟩
    rw [scan, hstate]
    exact Or.inr (scanValue_ok hb hl (hb.fresh (Or.inr (Or.inr hstate))))
  | msgstr =>
    have hto : appendsTo b l = some b.val := by rw [appendsTo, hstate]
    have hscan : scan b = (extractString b.line b.tmp >>= fun r =>
        if r.1 = -1 then return some { b with state := .complete, tmp := r.2 }
        else strcat b.val r.2 >>= fun e => return some { b with val := e, tmp := r.2 }) := by
      rw [scan, hstate]
    apply hweak
    apply scan_appends hb.tmp hl hto hv hscan
    · exact ⟨hb.key, hb.val, hb.tmp, nofun, by simp⟩
    · intro e t s he ht
      refine ⟨hb.key, ⟨_, he⟩, ht.1, fun h => absurd (hstate.symm.trans h) nofun, ?_⟩
      dsimp only
      rw [hstate]
      simp
  | complete => exact absurd hstate hrun

theorem flush_ok {k v : List U8} (hk : Holds b.key k) (hv : Holds b.val v) :
    flush b = .ok { b with
      state := .idle
      key := cleared
      val := cleared } := by
  have hlen := length_of_holds hv
  have hpad : v.length + (4 - v.length % 4) % 4 ≤ poBuffer := by
    rw [poBuffer] at hlen ⊢
    omega
  rw [flush, bind_ok (stringIn_holds hk)]
  split
  · rw [bind_ok (stringIn_holds hv)]
    split
    · rw [bind_ok (load_ok (by rw [Nat.zero_add, hv.1]; exact hpad))]
      rfl
    · rfl
  · rfl

theorem cstr_zero (s rest : List U8) : cstr (s ++ 0 :: rest) = some (s.takeWhile (· ≠ 0)) := by
  induction s with
  | nil => rfl
  | cons c s ih =>
    rw [List.cons_append, cstr]
    by_cases hc : c = 0
    · rw [if_pos hc, List.takeWhile_cons_of_neg (by rw [hc]; decide)]
    · rw [if_neg hc, List.takeWhile_cons_of_pos (by simpa using hc), ih]
      rfl

theorem length_fgets (n : Nat) (file : List U8) : (fgets n file).1.length ≤ n := by
  induction file generalizing n with
  | nil => cases n <;> exact Nat.zero_le _
  | cons c file ih =>
    cases n with
    | zero => exact Nat.zero_le _
    | succ n =>
      rw [fgets]
      split
      · exact Nat.succ_le_succ (Nat.zero_le _)
      · exact Nat.succ_le_succ (ih n)

theorem fgetsInto_ok (file : List U8) :
    ∃ line, fgetsInto cleared (fgets (poBuffer - 1) file).1 = .ok line ∧
      Holds line (lineOf file) := by
  have hlen := length_fgets (poBuffer - 1) file
  have hcleared : cleared.length = poBuffer := List.length_replicate
  have hroom : 0 + ((fgets (poBuffer - 1) file).1 ++ [0]).length ≤ cleared.length := by
    rw [List.length_append, List.length_singleton, hcleared, poBuffer] at *
    omega
  rw [fgetsInto]
  split
  · rename_i hnil
    refine ⟨cleared, rfl, ?_⟩
    rw [lineOf, hnil]
    exact holds_cleared
  · refine ⟨_, store_ok hroom, ?_, ?_⟩
    · rw [length_overwrite hroom, hcleared]
    · rw [overwrite, List.take_zero, List.nil_append, List.append_assoc]
      exact cstr_zero _ _

/-- A round of the loop stays inside if and only if its line fits, and then the next one is ready. -/
theorem round_cases (hb : Ready b) (file : List U8) :
    (Fits b (lineOf file) ∧ (round file b = .ok none ∨ ∃ b', round file b = .ok (some b') ∧ Ready b')) ∨
    (¬Fits b (lineOf file) ∧ round file b = .error .outside) := by
  obtain ⟨line, hline, hholds⟩ := fgetsInto_ok file
  have hkept : Kept { b with line } := ⟨hb.key, hb.val, hb.tmp, hb.idle, hb.fresh⟩
  rw [round, hb.line, bind_ok hline]
  rcases scan_cases hkept hholds hb.running with ⟨hfits, hscan | ⟨b', hscan, hb'⟩⟩ | ⟨hfits, hscan⟩
  · apply Or.inl
    refine ⟨hfits, Or.inl ?_⟩
    rw [bind_ok hscan]
    rfl
  · apply Or.inl
    refine ⟨hfits, Or.inr ?_⟩
    obtain ⟨k, hk⟩ := hb'.key
    obtain ⟨v, hv⟩ := hb'.val
    rw [bind_ok hscan]
    dsimp only
    by_cases hstate : b'.state = .complete
    · rw [if_pos hstate, bind_ok (flush_ok hk hv)]
      exact ⟨_, rfl, ⟨⟨[], holds_cleared⟩, ⟨[], holds_cleared⟩, hb'.tmp, fun _ => rfl, fun _ => rfl⟩,
        rfl, nofun⟩
    · rw [if_neg hstate]
      exact ⟨{ b' with line := cleared }, rfl, ⟨hb'.key, hb'.val, hb'.tmp, hb'.idle, hb'.fresh⟩, rfl, hstate⟩
  · apply Or.inr
    refine ⟨hfits, ?_⟩
    rw [hscan]
    rfl

theorem ready_init {tmp : List U8} (htmp : tmp.length = poBuffer) : Ready (init tmp) :=
  ⟨⟨⟨[], holds_cleared⟩, ⟨[], holds_cleared⟩, htmp, fun _ => rfl, fun _ => rfl⟩, rfl, nofun⟩

theorem ready_reaches {tmp file rest : List U8} (htmp : tmp.length = poBuffer)
    (h : Reaches tmp file rest b) : Ready b := by
  induction h with
  | start => exact ready_init htmp
  | @turn rest b b' _ _ hround ih =>
    rcases round_cases ih rest with ⟨-, hnone | ⟨b'', hsome, hready⟩⟩ | ⟨-, herror⟩
    · rw [hround] at hnone
      cases hnone
    · rw [hround] at hsome
      cases hsome
      exact hready
    · rw [hround] at herror
      cases herror

end Rounds

section Archive

variable {s s' : Po2lmo} {file l buffer dest src d : List U8}

/-- The buffers of a state of `Po2lmo` at the head of the loop. -/
def buffersOf (s : Po2lmo) : PoBuffers where
  state := s.state
  line := cleared
  key := s.key
  val := s.val
  tmp := s.tmp

theorem except_bind_ok {α β : Type} {x : Except PoExit α} {f : α → Except PoExit β} {b : β}
    (h : (x >>= f) = .ok b) : ∃ a, x = .ok a ∧ f a = .ok b := by
  cases x with
  | error e => cases h
  | ok a => exact ⟨a, rfl, h⟩

theorem stringIn_of_bufferString (h : bufferString buffer = .ok l) : stringIn buffer = .ok l := by
  rw [bufferString] at h
  rw [stringIn]
  cases hcstr : cstr buffer with
  | none =>
    rw [hcstr] at h
    cases h
  | some s =>
    rw [hcstr] at h
    cases h
    rfl

theorem strcat_of_po2lmo (h : Luci.strcat dest src = .ok d) : strcat dest src = .ok d := by
  obtain ⟨r, hr, h⟩ := except_bind_ok h
  obtain ⟨s, hs, h⟩ := except_bind_ok h
  split at h
  · cases h
    rw [strcat, bind_ok (stringIn_of_bufferString hr), bind_ok (stringIn_of_bufferString hs), store_ok]
    rw [List.length_append, List.length_singleton]
    omega
  · cases h

theorem extractString_of_po2lmo {n : Option Nat} (hl : Holds buffer l) (hdest : dest.length = poBuffer)
    (h : Luci.extractString l dest = .ok (n, d)) : extractString buffer dest = .ok (offset n, d) := by
  rw [extractString_loop hl hdest]
  rw [Luci.extractString] at h
  generalize extractFrom poBuffer 0 l none false dest = r at h ⊢
  obtain ⟨off, dest'⟩ := r
  cases off with
  | none =>
    cases h
    rfl
  | some off =>
    obtain ⟨s, hs, h⟩ := except_bind_ok h
    cases h
    rw [if_pos (show -1 < offset (some off) by rw [offset]; omega),
      bind_ok (stringIn_of_bufferString hs)]
    rfl

theorem offset_eq (n : Option Nat) : offset n = -1 ↔ n = none := by
  cases n with
  | none => exact ⟨fun _ => rfl, fun _ => rfl⟩
  | some n =>
    refine ⟨fun h => ?_, nofun⟩
    rw [offset] at h
    omega

theorem scan_of_po2lmo {line : List U8} (hb : Kept (buffersOf s)) (hl : Holds line l)
    (h : s.scan l = .ok s') :
    scan { buffersOf s with line } = .ok (some { buffersOf s' with line }) := by
  obtain ⟨k, hk⟩ := hb.key
  obtain ⟨v, hv⟩ := hb.val
  obtain ⟨state, key, val, tmp, offset, array, out⟩ := s
  have hkey : key.length = poBuffer := hk.1
  have hval : val.length = poBuffer := hv.1
  have htmp : tmp.length = poBuffer := hb.tmp
  have hvalue {n : Option Nat} {val' : List U8} {state' : PoState}
      (hextract : Luci.extractString l val = .ok (n, val'))
      (hstate : state' = if n = none then .complete else .msgstr) :
      scanValue ⟨state, line, key, val, tmp⟩ = .ok (some ⟨state', line, key, val', tmp⟩) := by
    rw [scanValue]
    dsimp only
    rw [bind_ok (extractString_of_po2lmo hl hval hextract), hstate]
    simp only [offset_eq]
    rfl
  cases state with
  | idle =>
    unfold Po2lmo.scan at h
    dsimp only at h
    rw [scan]
    dsimp only [buffersOf]
    rw [bind_ok (begins_ok hl _)]
    split at h
    · rename_i hword
      obtain ⟨⟨n, key'⟩, hextract, h⟩ := except_bind_ok h
      rw [if_pos hword, bind_ok (extractString_of_po2lmo hl hkey hextract)]
      cases n with
      | none => cases h
      | some n =>
        cases n with
        | zero =>
          cases h
          rfl
        | succ n =>
          cases h
          rfl
    · rename_i hword
      cases h
      rw [if_neg hword]
      rfl
  | emptyMsgid =>
    unfold Po2lmo.scan at h
    dsimp only at h
    rw [scan]
    dsimp only [buffersOf]
    rw [bind_ok (begins_ok hl _)]
    split at h
    · rename_i hword
      obtain ⟨⟨n, val'⟩, hextract, h⟩ := except_bind_ok h
      cases h
      rw [if_pos hword]
      exact hvalue hextract rfl
    · rename_i hword
      obtain ⟨⟨n, tmp'⟩, hextract, h⟩ := except_bind_ok h
      rw [if_neg hword, bind_ok (extractString_of_po2lmo hl htmp hextract)]
      dsimp only at h ⊢
      cases n with
      | none =>
        cases h
        rfl
      | some n =>
        obtain ⟨key', hcat, h⟩ := except_bind_ok h
        cases h
        rw [if_neg (by rw [offset_eq]; nofun), bind_ok (strcat_of_po2lmo hcat)]
        rfl
  | msgid =>
    unfold Po2lmo.scan at h
    dsimp only at h
    obtain ⟨⟨n, val'⟩, hextract, h⟩ := except_bind_ok h
    cases h
    exact hvalue hextract rfl
  | msgstr =>
    unfold Po2lmo.scan at h
    dsimp only at h
    obtain ⟨⟨n, tmp'⟩, hextract, h⟩ := except_bind_ok h
    rw [scan]
    dsimp only [buffersOf]
    rw [bind_ok (extractString_of_po2lmo hl htmp hextract)]
    dsimp only at h ⊢
    cases n with
    | none =>
      cases h
      rfl
    | some n =>
      obtain ⟨val', hcat, h⟩ := except_bind_ok h
      cases h
      rw [if_neg (by rw [offset_eq]; nofun), bind_ok (strcat_of_po2lmo hcat)]
      rfl
  | complete =>
    cases h
    rfl

theorem round_of_po2lmo (hb : Ready (buffersOf s)) (h : s.round (lineOf file) = .ok s') :
    round file (buffersOf s) = .ok (some (buffersOf s')) := by
  obtain ⟨line, hline, hholds⟩ := fgetsInto_ok file
  obtain ⟨s₁, hscan, h⟩ := except_bind_ok h
  have hscan' := scan_of_po2lmo hb.toKept hholds hscan
  have hkept : Kept { buffersOf s with line } := ⟨hb.key, hb.val, hb.tmp, hb.idle, hb.fresh⟩
  have hkept₁ : Kept { buffersOf s₁ with line } := by
    rcases scan_cases hkept hholds hb.running with ⟨-, hnone | ⟨b', hsome, hb'⟩⟩ | ⟨-, herror⟩
    · rw [hscan'] at hnone
      cases hnone
    · rw [hscan'] at hsome
      cases hsome
      exact hb'
    · rw [hscan'] at herror
      cases herror
  obtain ⟨k, hk⟩ := hkept₁.key
  obtain ⟨v, hv⟩ := hkept₁.val
  rw [round, hb.line, bind_ok hline, bind_ok hscan']
  dsimp only
  by_cases hstate : s₁.state = .complete
  · rw [if_pos (show (buffersOf s₁).state = .complete from hstate), bind_ok (flush_ok hk hv)]
    rw [if_pos hstate] at h
    obtain ⟨key, hkey, h⟩ := except_bind_ok h
    obtain ⟨val, hval, h⟩ := except_bind_ok h
    obtain ⟨s₂, hs₂, h⟩ := except_bind_ok h
    have htmp : s₂.tmp = s₁.tmp := by
      split at hs₂
      · unfold Po2lmo.store at hs₂
        dsimp only at hs₂
        split at hs₂
        · cases hs₂
          rfl
        · cases hs₂
      · cases hs₂
        rfl
    cases h
    rw [buffersOf, htmp]
    rfl
  · rw [if_neg (show ¬(buffersOf s₁).state = .complete from hstate)]
    rw [if_neg hstate] at h
    cases h
    rfl

theorem rounds_inv {fuel : Nat} {last : Po2lmo} (h : Po2lmo.rounds fuel file s = .ok last)
    (hgo : Continues file (buffersOf s)) :
    ∃ fuel' s', s.round (lineOf file) = .ok s' ∧
      Po2lmo.rounds fuel' (fgets (poBuffer - 1) file).2 s' = .ok last := by
  cases fuel with
  | zero => cases h
  | succ fuel =>
    have hgoes : ¬((fgets (poBuffer - 1) file).1 = [] ∧ (!s.pending) = true) := by
      rintro ⟨hline, hpending⟩
      rcases hgo with hgo | ⟨hidle, hempty⟩
      · exact hgo hline
      · have hidle' : s.state ≠ .idle := hidle
        have hempty' : s.state ≠ .emptyMsgid := hempty
        rw [Po2lmo.pending] at hpending
        simp [hidle', hempty'] at hpending
    rw [Po2lmo.rounds] at h
    dsimp only at h
    rw [if_neg hgoes] at h
    obtain ⟨s', hround, hrest⟩ := except_bind_ok h
    exact ⟨fuel, s', hround, hrest⟩

/-- A run that makes an archive is safe. -/
theorem safeRun_of_po2lmo {qsort : Qsort} {tmp : List U8} {archive : Option (List U8)}
    (htmp : tmp.length = poBuffer) (h : po2lmo qsort tmp file = .ok archive) :
    SafeRun tmp file := by
  obtain ⟨last, hrun, -⟩ := except_bind_ok h
  have hreach : ∀ rest b, Reaches tmp file rest b →
      ∃ fuel s, b = buffersOf s ∧ Po2lmo.rounds fuel rest s = .ok last := by
    intro rest b hreach
    induction hreach with
    | start => exact ⟨_, .init tmp, rfl, hrun⟩
    | @turn rest b b' hreach hgo hround ih =>
      obtain ⟨fuel, s, rfl, hs⟩ := ih
      obtain ⟨fuel', s', hs', hrest⟩ := rounds_inv hs hgo
      have hround' := round_of_po2lmo (ready_reaches htmp hreach) hs'
      rw [hround] at hround'
      cases hround'
      exact ⟨fuel', s', rfl, hrest⟩
  intro rest b hb hgo
  obtain ⟨fuel, s, rfl, hs⟩ := hreach rest b hb
  obtain ⟨fuel', s', hs', -⟩ := rounds_inv hs hgo
  exact ⟨_, round_of_po2lmo (ready_reaches htmp hb) hs'⟩

end Archive

section Overflow

variable {n : Nat}

end Overflow

end PoAccess

end OpenwrtMtk.Luci
