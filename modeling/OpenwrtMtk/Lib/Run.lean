import Mathlib.Data.List.Basic
import Mathlib.Data.List.Induction

/-!
# Finite runs of a labelled transition relation

`Run Step init es s` says that the events `es`, taken in order from `init`, can end
in `s`. The last event is outermost, so an induction over a run sees one step at a
time from a state that already has its history. A deterministic machine is a function
into `Option`; `exec` runs it and `Graph` is its transition relation.
-/

namespace Toolkit

set_option autoImplicit false

universe u v

variable {σ : Type u} {ε : Type v}

/-- Finite runs from `init`, extended at the end. -/
inductive Run (Step : σ → ε → σ → Prop) (init : σ) : List ε → σ → Prop where
  | nil : Run Step init [] init
  | snoc {es : List ε} {s s' : σ} {e : ε} :
      Run Step init es s → Step s e s' → Run Step init (es ++ [e]) s'

/-- The transitions of `Step` whose source state and event satisfy `Ok`. -/
def Guarded (Ok : σ → ε → Prop) (Step : σ → ε → σ → Prop) (s : σ) (e : ε) (s' : σ) : Prop :=
  Ok s e ∧ Step s e s'

/-- The transition relation of a partial function; `none` is a step that has no result. -/
def Graph (step : σ → ε → Option σ) (s : σ) (e : ε) (s' : σ) : Prop := step s e = some s'

def exec (step : σ → ε → Option σ) : σ → List ε → Option σ
  | s, [] => some s
  | s, e :: es => (step s e).bind fun s' => exec step s' es

/-- Restrict a partial function to the pairs that satisfy `Ok`. -/
def guardStep (Ok : σ → ε → Prop) [∀ s e, Decidable (Ok s e)] (step : σ → ε → Option σ)
    (s : σ) (e : ε) : Option σ :=
  if Ok s e then step s e else none

namespace Run

variable {Step Step' : σ → ε → σ → Prop} {init mid s s' : σ} {es es' : List ε} {e : ε}

theorem single (h : Step s e s') : Run Step s [e] s' := .snoc .nil h

theorem trans (h : Run Step init es mid) (h' : Run Step mid es' s) :
    Run Step init (es ++ es') s := by
  induction h' with
  | nil => simpa using h
  | snoc _ hstep ih => rw [← List.append_assoc]; exact .snoc ih hstep

theorem mono (himp : ∀ s e s', Step s e s' → Step' s e s') (h : Run Step init es s) :
    Run Step' init es s := by
  induction h with
  | nil => exact .nil
  | snoc _ hstep ih => exact .snoc ih (himp _ _ _ hstep)

theorem nil_eq (h : Run Step init [] s) : s = init := by
  generalize hall : ([] : List ε) = all at h
  cases h with
  | nil => rfl
  | snoc _ _ => simp at hall

theorem snoc_inv (h : Run Step init (es ++ [e]) s') : ∃ s, Run Step init es s ∧ Step s e s' := by
  generalize hall : es ++ [e] = all at h
  cases h with
  | nil => simp at hall
  | snoc hrun hstep =>
    obtain ⟨rfl, hlast⟩ := List.append_inj' hall rfl
    cases hlast
    exact ⟨_, hrun, hstep⟩

theorem single_inv (h : Run Step init [e] s) : Step init e s := by
  have h' : Run Step init ([] ++ [e]) s := h
  obtain ⟨mid, hnil, hstep⟩ := h'.snoc_inv
  obtain rfl := hnil.nil_eq
  exact hstep

/-- A predicate of the start state that every step preserves holds at the end of the run. -/
theorem invariant (Inv : σ → Prop) (hstep : ∀ s e s', Inv s → Step s e s' → Inv s')
    (hinit : Inv init) (h : Run Step init es s) : Inv s := by
  induction h with
  | nil => exact hinit
  | snoc _ hs ih => exact hstep _ _ _ ih hs

theorem unguard {Ok : σ → ε → Prop} (h : Run (Guarded Ok Step) init es s) :
    Run Step init es s :=
  h.mono fun _ _ _ hstep => hstep.2

end Run

variable {step : σ → ε → Option σ} {init s : σ} {es : List ε}

theorem exec_run (h : exec step init es = some s) : Run (Graph step) init es s := by
  induction es generalizing init with
  | nil =>
    obtain rfl : init = s := by simpa [exec] using h
    exact .nil
  | cons e es ih =>
    obtain ⟨mid, hfirst, hrest⟩ := Option.bind_eq_some_iff.mp h
    have hhead : Run (Graph step) init [e] mid := .single hfirst
    exact hhead.trans (ih hrest)

theorem Run.unique {s' : σ} (h : Run (Graph step) init es s) (h' : Run (Graph step) init es s') :
    s = s' := by
  induction h generalizing s' with
  | nil => exact h'.nil_eq.symm
  | snoc _ hstep ih =>
    obtain ⟨mid, hrun, hlast⟩ := h'.snoc_inv
    rw [← ih hrun] at hlast
    exact Option.some.inj (hstep.symm.trans hlast)

theorem guardStep_graph (Ok : σ → ε → Prop) [∀ s e, Decidable (Ok s e)] {s s' : σ} {e : ε} :
    Graph (guardStep Ok step) s e s' ↔ Guarded Ok (Graph step) s e s' := by
  unfold Toolkit.Graph guardStep Guarded
  split
  · rename_i hok; exact ⟨fun h => ⟨hok, h⟩, fun h => h.2⟩
  · rename_i hok; exact ⟨fun h => by simp at h, fun h => absurd h.1 hok⟩

/-- Executing the guarded function exhibits a run all of whose steps satisfy the guard. -/
theorem exec_guarded_run {Ok : σ → ε → Prop} [∀ s e, Decidable (Ok s e)]
    (h : exec (guardStep Ok step) init es = some s) :
    Run (Guarded Ok (Graph step)) init es s :=
  (exec_run h).mono fun _ _ _ => (guardStep_graph Ok).mp

end Toolkit

/-!
## Partial functions with a log

A step of such a machine has no result, or it has a next state and the list of what it did. A
relation between the state before, the list and the state after that composes is proved for a step
part by part, and then holds between the ends of every run.
-/

namespace Toolkit

set_option autoImplicit false

universe u v w

variable {σ : Type u} {ε : Type v} {α : Type w}

abbrev Logged (σ : Type u) (ε : Type v) := Option (σ × List ε)

def andThen (r : Logged σ ε) (next : σ → Logged σ ε) : Logged σ ε :=
  r.bind fun (s, log) => (next s).map fun (s', more) => (s', log ++ more)

structure Composes (Rel : σ → List ε → σ → Prop) : Prop where
  nothing : ∀ s, Rel s [] s
  step : ∀ {s s' s'' log more}, Rel s log s' → Rel s' more s'' → Rel s (log ++ more) s''

/-- Every result of `r` is related to `s`. -/
def Meets (Rel : σ → List ε → σ → Prop) (s : σ) (r : Logged σ ε) : Prop :=
  ∀ s' log, r = some (s', log) → Rel s log s'

section

variable {Rel : σ → List ε → σ → Prop} {s : σ} {r : Logged σ ε}

theorem meets_none : Meets Rel s none := by
  intro s' log h
  cases h

theorem meets_some {s' : σ} {log : List ε} : Meets Rel s (some (s', log)) ↔ Rel s log s' := by
  constructor
  · intro h
    exact h _ _ rfl
  · intro h s'' log' heq
    cases heq
    exact h

theorem meets_result {p : σ × List ε} (h : Rel s p.2 p.1) : Meets Rel s (some p) :=
  meets_some.mpr h

theorem meets_bind {x : Option α} {f : α → Logged σ ε} (h : ∀ a, x = some a → Meets Rel s (f a)) :
    Meets Rel s (x.bind f) := by
  cases x with
  | none => exact meets_none
  | some a => exact h a rfl

theorem meets_map {x : Option α} {f : α → σ × List ε}
    (h : ∀ a, x = some a → Rel s (f a).2 (f a).1) : Meets Rel s (x.map f) := by
  cases x with
  | none => exact meets_none
  | some a => exact meets_some.mpr (h a rfl)

theorem meets_andThen (hc : Composes Rel) {next : σ → Logged σ ε} (hr : Meets Rel s r)
    (hnext : ∀ s' log, r = some (s', log) → Meets Rel s' (next s')) :
    Meets Rel s (andThen r next) := by
  intro s'' all h
  obtain ⟨⟨s', log⟩, hfirst, hrest⟩ := Option.bind_eq_some_iff.mp h
  obtain ⟨⟨last, more⟩, hsecond, heq⟩ := Option.map_eq_some_iff.mp hrest
  cases heq
  exact hc.step (hr _ _ hfirst) (hnext _ _ hfirst _ _ hsecond)

theorem andThen_some_nil (s : σ) (next : σ → Logged σ ε) :
    andThen (some (s, [])) next = next s := by
  simp [andThen]

end

structure Trace (σ : Type u) (ε : Type v) where
  state : σ
  log : List ε

def traceStep (step : σ → α → Logged σ ε) (t : Trace σ ε) (e : α) : Option (Trace σ ε) :=
  (step t.state e).map fun (s, log) => ⟨s, t.log ++ log⟩

/-- What every step meets, a run meets with the whole log. -/
theorem run_meets {Rel : σ → List ε → σ → Prop} (hc : Composes Rel) {step : σ → α → Logged σ ε}
    (hstep : ∀ s e, Meets Rel s (step s e)) {init : σ} {es : List α} {t : Trace σ ε}
    (h : Run (Graph (traceStep step)) ⟨init, []⟩ es t) : Rel init t.log t.state := by
  induction h with
  | nil => exact hc.nothing init
  | snoc _ hlast ih =>
    obtain ⟨⟨s, log⟩, hs, heq⟩ := Option.map_eq_some_iff.mp hlast
    cases heq
    exact hc.step ih (hstep _ _ _ _ hs)

end Toolkit

/-!
## What a log says since an entry

`Since p q log`: some entry of the log has the property `p`, which may depend on what came before
it, and no entry after it has the property `q`.
-/

namespace Toolkit

set_option autoImplicit false

universe u

variable {α : Type u} {p p' : List α → α → Prop} {q q' : α → Prop} {log more : List α} {x : α}

def Since (p : List α → α → Prop) (q : α → Prop) (log : List α) : Prop :=
  ∃ pre x post, log = pre ++ x :: post ∧ p pre x ∧ ∀ y ∈ post, ¬q y

theorem since_last (h : p log x) : Since p q (log ++ [x]) := by
  refine ⟨log, x, [], rfl, h, ?_⟩
  intro y hy
  cases hy

theorem Since.append (h : Since p q log) (hmore : ∀ y ∈ more, ¬q y) : Since p q (log ++ more) := by
  obtain ⟨pre, x, post, rfl, hx, hpost⟩ := h
  refine ⟨pre, x, post ++ more, by simp, hx, ?_⟩
  intro y hy
  rcases List.mem_append.mp hy with hy | hy
  · exact hpost y hy
  · exact hmore y hy

theorem Since.snoc (h : Since p q log) (hx : ¬q x) : Since p q (log ++ [x]) := by
  apply h.append
  intro y hy
  rwa [List.mem_singleton.mp hy]

theorem Since.mono (h : Since p q log) (hp : ∀ pre x, p pre x → p' pre x)
    (hq : ∀ x, q' x → q x) : Since p' q' log := by
  obtain ⟨pre, x, post, hlog, hx, hpost⟩ := h
  refine ⟨pre, x, post, hlog, hp pre x hx, ?_⟩
  intro y hy hqy
  exact hpost y hy (hq y hqy)

def Always (p : List α → α → Prop) (log : List α) : Prop :=
  ∀ pre x post, log = pre ++ x :: post → p pre x

theorem always_nil : Always p [] := by
  intro pre x post h
  cases pre <;> cases h

theorem Always.of_append (h : Always p (log ++ more)) : Always p log := by
  intro pre x post heq
  refine h pre x (post ++ more) ?_
  rw [heq, List.append_assoc, List.cons_append]

theorem always_snoc (h : Always p log) (hx : p log x) : Always p (log ++ [x]) := by
  intro pre y post heq
  rcases List.eq_nil_or_concat post with rfl | ⟨post, z, rfl⟩
  · obtain ⟨rfl, hy⟩ := List.append_inj' heq rfl
    rwa [← List.singleton_inj.mp hy]
  · rw [List.concat_eq_append, ← List.cons_append, ← List.append_assoc] at heq
    exact h pre y post (List.append_inj' heq rfl).1

end Toolkit
