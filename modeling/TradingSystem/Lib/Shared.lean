import Mathlib.Data.List.Forall2
import Mathlib.Data.List.Induction
import Mathlib.Data.List.Perm.Subperm
import Mathlib.Logic.Function.Basic
import TradingSystem.Lib.Machine

/-!
# Machines that are shared

Processes call one machine. Of each call one sees that it is invoked and, later, what it returns. A list of
such observations is linearizable (`Linearizable`) when there is one sequential run of the machine with the
calls of every process in the order in which it made them, with the results that were returned, and with every
call placed between its invocation and its return: every prefix of the observations agrees with a prefix of the
run. The calls that nobody is seen to make are given, and no others stand in the run.

The atomic object (`Shared`) performs every call at one moment between the two. Its observations are
linearizable (`Shared.linearization_run`), and so are those of every machine that refines it
(`Machine.refinement` brings the runs of one machine to runs of another).
-/

namespace Lib

universe u v w

/-- What a process is seen to do. -/
inductive Observation (π : Type u) (ι : Type v) (ρ : Type w) where
  | invoked (p : π) (op : ι)
  | returned (p : π) (op : ι) (result : ρ)

/-- A call that took effect. Nobody sees one without a caller. -/
structure Entry (π : Type u) (ι : Type v) (ο : Type w) where
  caller : Option π
  op : ι
  out : ο

variable {π σ ι ο ρ : Type*} [DecidableEq π]

def invokedBy (p : π) (trace : List (Observation π ι ρ)) : List ι :=
  trace.filterMap fun
    | .invoked q op => if q = p then some op else none
    | .returned .. => none

def returnedBy (p : π) (trace : List (Observation π ι ρ)) : List (ι × ρ) :=
  trace.filterMap fun
    | .invoked .. => none
    | .returned q op result => if q = p then some (op, result) else none

def performedBy (p : π) (log : List (Entry π ι ο)) : List (Entry π ι ο) :=
  log.filter fun x => x.caller = some p

/-- The calls without a caller. -/
def background (log : List (Entry π ι ο)) : List ι := (log.filter fun x => x.caller.isNone).map Entry.op

/-- What the caller of an entry is given. -/
def Entry.result (render : ι → ο → ρ) (x : Entry π ι ο) : ι × ρ := (x.op, render x.op x.out)

/-- Every process was returned the results of its first calls, and what took effect are its first calls. -/
structure Agrees (render : ι → ο → ρ) (trace : List (Observation π ι ρ)) (log : List (Entry π ι ο)) : Prop where
  returned : ∀ p, returnedBy p trace <+: (performedBy p log).map (Entry.result render)
  invoked : ∀ p, (performedBy p log).map Entry.op <+: invokedBy p trace

/-- The log is a run of the machine from `s₀` to `s`, and explains the observations at every moment. Besides the
calls of the processes it has the calls `others`. -/
structure Linearization (M : Machine σ ι ο) (render : ι → ο → ρ) (s₀ s : σ) (others : List ι)
    (trace : List (Observation π ι ρ)) (log : List (Entry π ι ο)) : Prop where
  outputs : M.outputs s₀ (log.map Entry.op) = log.map Entry.out
  run : M.run s₀ (log.map Entry.op) = s
  background : background log = others
  agrees : Agrees render trace log
  moments : ∀ before after, trace = before ++ after → ∃ past future, log = past ++ future ∧
    Agrees render before past

def Linearizable (M : Machine σ ι ο) (render : ι → ο → ρ) (s₀ s : σ) (others : List ι)
    (trace : List (Observation π ι ρ)) : Prop :=
  ∃ log, Linearization M render s₀ s others trace log

theorem invokedBy_append (p : π) (trace trace' : List (Observation π ι ρ)) :
    invokedBy p (trace ++ trace') = invokedBy p trace ++ invokedBy p trace' := List.filterMap_append

theorem returnedBy_append (p : π) (trace trace' : List (Observation π ι ρ)) :
    returnedBy p (trace ++ trace') = returnedBy p trace ++ returnedBy p trace' := List.filterMap_append

theorem performedBy_append (p : π) (log log' : List (Entry π ι ο)) :
    performedBy p (log ++ log') = performedBy p log ++ performedBy p log' := List.filter_append _ _

omit [DecidableEq π] in
theorem background_append (log log' : List (Entry π ι ο)) :
    background (log ++ log') = background log ++ background log' := by
  rw [background, List.filter_append, List.map_append]
  rfl

theorem invokedBy_invoked (p q : π) (op : ι) :
    invokedBy p [(.invoked q op : Observation π ι ρ)] = if q = p then [op] else [] := by
  by_cases h : q = p <;> simp [invokedBy, h]

theorem returnedBy_returned (p q : π) (op : ι) (result : ρ) :
    returnedBy p [.returned q op result] = if q = p then [(op, result)] else [] := by
  by_cases h : q = p <;> simp [returnedBy, h]

theorem invokedBy_returned (p q : π) (op : ι) (result : ρ) : invokedBy p [.returned q op result] = [] := rfl

theorem returnedBy_invoked (p q : π) (op : ι) : returnedBy p [(.invoked q op : Observation π ι ρ)] = [] := rfl

theorem performedBy_own (p : π) (op : ι) (out : ο) :
    performedBy p [(⟨some p, op, out⟩ : Entry π ι ο)] = [⟨some p, op, out⟩] := by
  simp [performedBy]

theorem performedBy_other {p : π} {x : Entry π ι ο} (h : x.caller ≠ some p) : performedBy p [x] = [] := by
  simp [performedBy, h]

omit [DecidableEq π] in
/-- What holds of every step from a state that meets `I` holds of every entry. -/
theorem forall_entry {M : Machine σ ι ο} {I : σ → Prop} {P : ι → ο → Prop} (hI : ∀ s op, I s → I (M.next s op))
    (hP : ∀ s op, I s → P op (M.step s op).1) {s : σ} (hs : I s) {log : List (Entry π ι ο)}
    (h : M.outputs s (log.map Entry.op) = log.map Entry.out) : ∀ x ∈ log, P x.op x.out := by
  induction log generalizing s with
  | nil => exact fun x hx => absurd hx List.not_mem_nil
  | cons x log ih =>
    rw [List.map_cons, List.map_cons, Machine.outputs, List.cons.injEq] at h
    refine List.forall_mem_cons.mpr ⟨?_, ih (hI s x.op hs) h.2⟩
    rw [← h.1]
    exact hP s x.op hs

/-! ### All that is returned -/

section Returns

/-- What is returned, and to whom. -/
def returns (trace : List (Observation π ι ρ)) : List (π × ι × ρ) :=
  trace.filterMap fun
    | .invoked .. => none
    | .returned p op result => some (p, op, result)

/-- What the callers of the entries are given. -/
def given (render : ι → ο → ρ) (log : List (Entry π ι ο)) : List (π × ι × ρ) :=
  log.filterMap fun x => x.caller.map fun p => (p, x.result render)

theorem count_returns [DecidableEq ι] [DecidableEq ρ] (p : π) (r : ι × ρ) (trace : List (Observation π ι ρ)) :
    (returns trace).count (p, r) = (returnedBy p trace).count r := by
  induction trace with
  | nil => rfl
  | cons x trace ih =>
    cases x with
    | invoked q op => exact ih
    | returned q op result =>
      simp only [returns, returnedBy, List.filterMap_cons] at ih ⊢
      by_cases hq : q = p
      · subst hq
        simp only [if_true, List.count_cons, ih, beq_iff_eq, Prod.mk.injEq, true_and]
      · rw [if_neg hq, List.count_cons_of_ne (by simp [hq])]
        exact ih

theorem count_given [DecidableEq ι] [DecidableEq ρ] (render : ι → ο → ρ) (p : π) (r : ι × ρ)
    (log : List (Entry π ι ο)) :
    (given render log).count (p, r) = ((performedBy p log).map (Entry.result render)).count r := by
  induction log with
  | nil => rfl
  | cons x log ih =>
    simp only [given, performedBy, List.filterMap_cons, List.filter_cons] at ih ⊢
    by_cases hp : x.caller = some p
    · simp only [hp, Option.map_some, decide_true, if_true, List.map_cons, List.count_cons, ih, beq_iff_eq,
        Prod.mk.injEq, true_and]
    · rw [if_neg (by simpa using hp)]
      cases hcaller : x.caller with
      | none => exact ih
      | some q =>
        have hq : q ≠ p := fun h => hp (h ▸ hcaller)
        rw [Option.map_some, List.count_cons_of_ne (by simp [hq])]
        exact ih

/-- **What is returned is given**, and nothing of it twice. -/
theorem Agrees.subperm {render : ι → ο → ρ} {trace : List (Observation π ι ρ)} {log : List (Entry π ι ο)}
    (h : Agrees render trace log) : List.Subperm (returns trace) (given render log) := by
  classical
  rw [List.subperm_ext_iff]
  intro ⟨p, r⟩ _
  rw [count_returns, count_given]
  exact (h.returned p).sublist.count_le r

omit [DecidableEq π] in
theorem mem_given {render : ι → ο → ρ} {log : List (Entry π ι ο)} {p : π} {r : ι × ρ} (h : (p, r) ∈ given render log) :
    ∃ x ∈ log, x.caller = some p ∧ x.result render = r := by
  obtain ⟨x, hx, hgiven⟩ := List.mem_filterMap.mp h
  obtain ⟨q, hcaller, heq⟩ := Option.map_eq_some_iff.mp hgiven
  cases heq
  exact ⟨x, hx, hcaller, rfl⟩

theorem mem_returnedBy {trace : List (Observation π ι ρ)} {p : π} {r : ι × ρ} (h : (p, r) ∈ returns trace) :
    r ∈ returnedBy p trace := by
  classical
  rw [← List.count_pos_iff, ← count_returns]
  exact List.count_pos_iff.mpr h

end Returns

/-! ### Real time -/

theorem exists_entry_of_result {render : ι → ο → ρ} {p : π} {part : List (Entry π ι ο)} {r : ι × ρ}
    (h : r ∈ (performedBy p part).map (Entry.result render)) : ∃ x ∈ part, x.result render = r := by
  obtain ⟨x, hx, hresult⟩ := List.mem_map.mp h
  exact ⟨x, List.mem_of_mem_filter hx, hresult⟩

/-- **What was returned before a process makes a call took effect before the call.** -/
theorem Linearization.precedes {M : Machine σ ι ο} {render : ι → ο → ρ} {s₀ s : σ}
    {before after : List (Observation π ι ρ)} {log : List (Entry π ι ο)}
    {others : List ι} (h : Linearization M render s₀ s others (before ++ after) log) {p q : π}
    (hidle : (invokedBy q before).length ≤ (returnedBy q before).length) {r r' : ι × ρ}
    (hr : r ∈ returnedBy p before) (hr' : r' ∈ returnedBy q after) :
    ∃ past future, log = past ++ future ∧ (∃ x ∈ past, x.result render = r) ∧
      ∃ x ∈ future, x.result render = r' := by
  obtain ⟨past, future, rfl, hmoment⟩ := h.moments before after rfl
  have hpast : r ∈ (performedBy p past).map (Entry.result render) := (hmoment.returned p).subset hr
  -- nothing of `q` is under way, so what took effect of it is what it was returned
  have hlength := (hmoment.invoked q).length_le
  rw [List.length_map] at hlength
  have hsettled := (hmoment.returned q).eq_of_length_le (by rw [List.length_map]; omega)
  have hlater := h.agrees.returned q
  rw [returnedBy_append, performedBy_append, List.map_append, hsettled, List.prefix_append_right_inj] at hlater
  have hfuture : r' ∈ (performedBy q future).map (Entry.result render) := hlater.subset hr'
  exact ⟨past, future, rfl, exists_entry_of_result hpast, exists_entry_of_result hfuture⟩

/-! ### Another machine with the same results -/

section Simulation

variable {τ ο' : Type*} {M : Machine σ ι ο} {N : Machine τ ι ο'} {render : ι → ο → ρ} {render' : ι → ο' → ρ}

/-- The same call of the same caller, with a result that the caller is given alike. -/
structure Entry.Same (render : ι → ο → ρ) (render' : ι → ο' → ρ) (x : Entry π ι ο) (x' : Entry π ι ο') : Prop where
  caller : x'.caller = x.caller
  op : x'.op = x.op
  result : render' x.op x'.out = render x.op x.out

theorem performedBy_same (p : π) {log : List (Entry π ι ο)} {log' : List (Entry π ι ο')}
    (h : List.Forall₂ (Entry.Same render render') log log') :
    (performedBy p log').map (Entry.result render') = (performedBy p log).map (Entry.result render) ∧
      (performedBy p log').map Entry.op = (performedBy p log).map Entry.op := by
  induction h with
  | nil => exact ⟨rfl, rfl⟩
  | @cons x x' log log' hsame _ ih =>
    simp only [performedBy, List.filter_cons, hsame.caller] at ih ⊢
    split_ifs
    · simp only [List.map_cons, ih.1, ih.2, Entry.result, hsame.op, hsame.result, and_self]
    · exact ih

omit [DecidableEq π] in
theorem background_same {log : List (Entry π ι ο)} {log' : List (Entry π ι ο')}
    (h : List.Forall₂ (Entry.Same render render') log log') : background log' = background log := by
  induction h with
  | nil => rfl
  | @cons x x' log log' hsame _ ih =>
    simp only [background, List.filter_cons, hsame.caller] at ih ⊢
    split_ifs
    · simp only [List.map_cons, ih, hsame.op]
    · exact ih

theorem agrees_same {trace : List (Observation π ι ρ)} {log : List (Entry π ι ο)} {log' : List (Entry π ι ο')}
    (h : List.Forall₂ (Entry.Same render render') log log') (hagrees : Agrees render trace log) :
    Agrees render' trace log' := by
  constructor
  · intro p
    rw [(performedBy_same p h).1]
    exact hagrees.returned p
  · intro p
    rw [(performedBy_same p h).2]
    exact hagrees.invoked p

omit [DecidableEq π] in
/-- What a machine does with the calls of a log, a machine that simulates it does with the same results. -/
theorem exists_same_log {R : σ → τ → Prop} (hstep : ∀ s t op, R s t → R (M.next s op) (N.next t op) ∧
      render' op (N.step t op).1 = render op (M.step s op).1)
    {s : σ} {t : τ} (hst : R s t) {log : List (Entry π ι ο)}
    (houtputs : M.outputs s (log.map Entry.op) = log.map Entry.out) :
    ∃ log' : List (Entry π ι ο'), List.Forall₂ (Entry.Same render render') log log' ∧
      N.outputs t (log'.map Entry.op) = log'.map Entry.out ∧
      R (M.run s (log.map Entry.op)) (N.run t (log'.map Entry.op)) := by
  induction log generalizing s t with
  | nil => exact ⟨[], .nil, rfl, hst⟩
  | cons x log ih =>
    rw [List.map_cons, List.map_cons, Machine.outputs, List.cons.injEq] at houtputs
    obtain ⟨hnext, hresult⟩ := hstep s t x.op hst
    obtain ⟨log', hsame, houtputs', hrun⟩ := ih hnext houtputs.2
    refine ⟨⟨x.caller, x.op, (N.step t x.op).1⟩ :: log', .cons ⟨rfl, rfl, ?_⟩ hsame, ?_, hrun⟩
    · rw [← houtputs.1]
      exact hresult
    · rw [List.map_cons, List.map_cons, Machine.outputs, houtputs']

/-- **What is linearizable for a machine is linearizable for one that simulates it.** -/
theorem Linearizable.simulate {R : σ → τ → Prop} (hstep : ∀ s t op, R s t → R (M.next s op) (N.next t op) ∧
      render' op (N.step t op).1 = render op (M.step s op).1)
    {s₀ s : σ} {t₀ : τ} (hst : R s₀ t₀) {others : List ι} {trace : List (Observation π ι ρ)}
    (h : Linearizable M render s₀ s others trace) : ∃ t, R s t ∧ Linearizable N render' t₀ t others trace := by
  obtain ⟨log, houtputs, hrun, hbackground, hagrees, hmoments⟩ := h
  obtain ⟨log', hsame, houtputs', hrun'⟩ := exists_same_log hstep hst houtputs
  rw [hrun] at hrun'
  refine ⟨_, hrun', log', houtputs', rfl, (background_same hsame).trans hbackground, agrees_same hsame hagrees,
    fun before after hsplit => ?_⟩
  obtain ⟨past, future, rfl, hmoment⟩ := hmoments before after hsplit
  have hpast := (List.forall₂_take_append log' past future hsame.flip).flip
  exact ⟨log'.take past.length, log'.drop past.length, (List.take_append_drop _ _).symm,
    agrees_same hpast hmoment⟩

end Simulation

/-! ### The atomic object -/

inductive Status (ι : Type v) (ο : Type w) where
  | idle
  | waiting (op : ι)
  | done (op : ι) (out : ο)

structure Shared (π : Type*) (σ : Type*) (ι : Type*) (ο : Type*) where
  object : σ
  status : π → Status ι ο

namespace Shared

inductive Event (π : Type u) (ι : Type v) where
  | invoke (p : π) (op : ι)
  /-- The call of `p` takes effect. -/
  | perform (p : π)
  | respond (p : π)
  /-- A call of someone who is not seen. -/
  | background (op : ι)

/-- The call of an event that nobody is seen to make. -/
def Event.unseen : Event π ι → List ι
  | .background op => [op]
  | _ => []

def start (s₀ : σ) : Shared π σ ι ο := ⟨s₀, fun _ => .idle⟩

def setStatus (s : Shared π σ ι ο) (p : π) (status : Status ι ο) : Shared π σ ι ο :=
  { s with status := Function.update s.status p status }

theorem setStatus_status (s : Shared π σ ι ο) (p q : π) (status : Status ι ο) :
    (s.setStatus p status).status q = if q = p then status else s.status q :=
  Function.update_apply s.status p status q

/-- The calls of all processes on one machine. The output is what one sees and what takes effect. -/
def machine (M : Machine σ ι ο) (render : ι → ο → ρ) :
    Machine (Shared π σ ι ο) (Event π ι) (List (Observation π ι ρ) × List (Entry π ι ο)) where
  step s
    | .invoke p op =>
      match s.status p with
      | .idle => (([.invoked p op], []), s.setStatus p (.waiting op))
      | _ => (([], []), s)
    | .perform p =>
      match s.status p with
      | .waiting op =>
        let (out, object) := M.step s.object op
        (([], [⟨some p, op, out⟩]), { s.setStatus p (.done op out) with object := object })
      | _ => (([], []), s)
    | .respond p =>
      match s.status p with
      | .done op out => (([.returned p op (render op out)], []), s.setStatus p .idle)
      | _ => (([], []), s)
    | .background op =>
      let (out, object) := M.step s.object op
      (([], [⟨none, op, out⟩]), { s with object := object })

variable {M : Machine σ ι ο} {render : ι → ο → ρ} {s₀ : σ}

theorem step_invoke {s : Shared π σ ι ο} {p : π} (h : s.status p = .idle) (op : ι) :
    (machine M render).step s (.invoke p op) = (([.invoked p op], []), s.setStatus p (.waiting op)) := by
  simp only [machine, h]

theorem step_perform {s : Shared π σ ι ο} {p : π} {op : ι} (h : s.status p = .waiting op) :
    (machine M render).step s (.perform p) = (([], [⟨some p, op, (M.step s.object op).1⟩]),
      { s.setStatus p (.done op (M.step s.object op).1) with object := M.next s.object op }) := by
  simp only [machine, h]
  rfl

theorem step_respond {s : Shared π σ ι ο} {p : π} {op : ι} {out : ο} (h : s.status p = .done op out) :
    (machine M render).step s (.respond p) =
      (([.returned p op (render op out)], []), s.setStatus p .idle) := by
  simp only [machine, h]

theorem step_background (s : Shared π σ ι ο) (op : ι) :
    (machine M render).step s (.background op) =
      (([], [⟨none, op, (M.step s.object op).1⟩]), { s with object := M.next s.object op }) := rfl

/-! ### Its runs are linearizable -/

/-- What is seen of a run. -/
def trace (M : Machine σ ι ο) (render : ι → ο → ρ) (s : Shared π σ ι ο) (events : List (Event π ι)) :
    List (Observation π ι ρ) := ((machine M render).outputs s events).flatMap Prod.fst

/-- What took effect in a run. -/
def log (M : Machine σ ι ο) (render : ι → ο → ρ) (s : Shared π σ ι ο) (events : List (Event π ι)) :
    List (Entry π ι ο) := ((machine M render).outputs s events).flatMap Prod.snd

theorem trace_concat (s : Shared π σ ι ο) (events : List (Event π ι)) (event : Event π ι) :
    trace M render s (events ++ [event]) =
      trace M render s events ++ ((machine M render).step ((machine M render).run s events) event).1.1 := by
  rw [trace, Machine.outputs_append, List.flatMap_append, trace]
  simp only [Machine.outputs, List.flatMap_singleton]

theorem log_concat (s : Shared π σ ι ο) (events : List (Event π ι)) (event : Event π ι) :
    log M render s (events ++ [event]) =
      log M render s events ++ ((machine M render).step ((machine M render).run s events) event).1.2 := by
  rw [log, Machine.outputs_append, List.flatMap_append, log]
  simp only [Machine.outputs, List.flatMap_singleton]

/-- Where a process stands, from what it invoked, what of it took effect and what it was returned. -/
def Accounts (render : ι → ο → ρ) (invoked : List ι) (performed : List (Entry π ι ο)) (returned : List (ι × ρ)) :
    Status ι ο → Prop
  | .idle => performed.map (Entry.result render) = returned ∧ performed.map Entry.op = invoked
  | .waiting op => performed.map (Entry.result render) = returned ∧ performed.map Entry.op ++ [op] = invoked
  | .done op out => performed.map (Entry.result render) = returned ++ [(op, render op out)] ∧
      performed.map Entry.op = invoked

structure Accounted (M : Machine σ ι ο) (render : ι → ο → ρ) (s₀ : σ) (s : Shared π σ ι ο)
    (trace : List (Observation π ι ρ)) (log : List (Entry π ι ο)) : Prop where
  outputs : M.outputs s₀ (log.map Entry.op) = log.map Entry.out
  run : M.run s₀ (log.map Entry.op) = s.object
  each : ∀ p, Accounts render (invokedBy p trace) (performedBy p log) (returnedBy p trace) (s.status p)

variable {s : Shared π σ ι ο} {seen : List (Observation π ι ρ)} {took : List (Entry π ι ο)}

theorem Accounted.agrees (h : Accounted M render s₀ s seen took) : Agrees render seen took := by
  constructor
  · intro p
    have hp := h.each p
    cases hstatus : s.status p with
    | idle | waiting =>
      rw [hstatus] at hp
      exact hp.1 ▸ List.prefix_rfl
    | done op out =>
      rw [hstatus] at hp
      rw [hp.1]
      exact List.prefix_append _ _
  · intro p
    have hp := h.each p
    cases hstatus : s.status p with
    | idle | done =>
      rw [hstatus] at hp
      exact hp.2 ▸ List.prefix_rfl
    | waiting op =>
      rw [hstatus] at hp
      rw [← hp.2]
      exact List.prefix_append _ _

/-- A process that waits for nothing was returned all its calls. -/
theorem Accounted.length_invokedBy (h : Accounted M render s₀ s seen took) {p : π} (hidle : s.status p = .idle) :
    (invokedBy p seen).length = (returnedBy p seen).length := by
  have hp := h.each p
  rw [hidle] at hp
  rw [← hp.1, ← hp.2, List.length_map, List.length_map]

theorem accounted_start (s₀ : σ) : Accounted M render s₀ (start s₀ : Shared π σ ι ο) [] [] :=
  ⟨rfl, rfl, fun _ => ⟨rfl, rfl⟩⟩

/-- A call that takes effect extends the log. -/
theorem Accounted.extend (h : Accounted M render s₀ s seen took) {x : Entry π ι ο}
    (hx : x.out = (M.step s.object x.op).1) :
    M.outputs s₀ ((took ++ [x]).map Entry.op) = (took ++ [x]).map Entry.out ∧
      M.run s₀ ((took ++ [x]).map Entry.op) = M.next s.object x.op := by
  rw [List.map_append, List.map_append, Machine.outputs_append, Machine.run_append, h.outputs, h.run]
  refine ⟨?_, rfl⟩
  rw [List.map_singleton, List.map_singleton, hx]
  rfl

theorem accounted_next (h : Accounted M render s₀ s seen took) (event : Event π ι) :
    Accounted M render s₀ ((machine M render).next s event) (seen ++ ((machine M render).step s event).1.1)
      (took ++ ((machine M render).step s event).1.2) := by
  have hidle : Accounted M render s₀ s (seen ++ []) (took ++ []) := by
    rwa [List.append_nil, List.append_nil]
  cases event with
  | invoke p op =>
    have hp := h.each p
    cases hstatus : s.status p with
    | waiting | done =>
      simp only [Machine.next, machine, hstatus]
      exact hidle
    | idle =>
      rw [Machine.next, step_invoke hstatus, List.append_nil]
      rw [hstatus] at hp
      refine ⟨h.outputs, h.run, fun q => ?_⟩
      rw [setStatus_status, invokedBy_append, returnedBy_append, invokedBy_invoked, returnedBy_invoked,
        List.append_nil]
      by_cases hq : q = p
      · subst hq
        rw [if_pos rfl, if_pos rfl]
        exact ⟨hp.1, congrArg (· ++ [op]) hp.2⟩
      · rw [if_neg hq, if_neg (Ne.symm hq), List.append_nil]
        exact h.each q
  | perform p =>
    have hp := h.each p
    cases hstatus : s.status p with
    | idle | done =>
      simp only [Machine.next, machine, hstatus]
      exact hidle
    | waiting op =>
      rw [Machine.next, step_perform hstatus, List.append_nil]
      rw [hstatus] at hp
      obtain ⟨houtputs, hrun⟩ := h.extend (x := ⟨some p, op, (M.step s.object op).1⟩) rfl
      refine ⟨houtputs, hrun, fun q => ?_⟩
      rw [performedBy_append]
      show Accounts render _ _ _ ((s.setStatus p _).status q)
      rw [setStatus_status]
      by_cases hq : q = p
      · subst hq
        rw [if_pos rfl, performedBy_own]
        constructor
        · rw [List.map_append, hp.1]
          rfl
        · rw [List.map_append]
          exact hp.2
      · rw [if_neg hq, performedBy_other fun heq => hq (Option.some.inj heq).symm, List.append_nil]
        exact h.each q
  | respond p =>
    have hp := h.each p
    cases hstatus : s.status p with
    | idle | waiting =>
      simp only [Machine.next, machine, hstatus]
      exact hidle
    | done op out =>
      rw [Machine.next, step_respond hstatus, List.append_nil]
      rw [hstatus] at hp
      refine ⟨h.outputs, h.run, fun q => ?_⟩
      rw [setStatus_status, invokedBy_append, returnedBy_append, invokedBy_returned, returnedBy_returned,
        List.append_nil]
      by_cases hq : q = p
      · subst hq
        rw [if_pos rfl, if_pos rfl]
        exact hp
      · rw [if_neg hq, if_neg (Ne.symm hq), List.append_nil]
        exact h.each q
  | background op =>
    rw [Machine.next, step_background, List.append_nil]
    obtain ⟨houtputs, hrun⟩ := h.extend (x := ⟨none, op, (M.step s.object op).1⟩) rfl
    refine ⟨houtputs, hrun, fun q => ?_⟩
    rw [performedBy_append, performedBy_other (fun heq => by cases heq), List.append_nil]
    exact h.each q

theorem accounted_run (M : Machine σ ι ο) (render : ι → ο → ρ) (s₀ : σ) (events : List (Event π ι)) :
    Accounted M render s₀ ((machine M render).run (start s₀) events) (trace M render (start s₀) events)
      (log M render (start s₀) events) := by
  induction events using List.reverseRecOn with
  | nil => exact accounted_start s₀
  | append_singleton events event ih =>
    rw [Machine.run_append, trace_concat, log_concat]
    exact accounted_next ih event

theorem length_trace_step (M : Machine σ ι ο) (render : ι → ο → ρ) (s : Shared π σ ι ο) (event : Event π ι) :
    ((machine M render).step s event).1.1.length ≤ 1 := by
  cases event with
  | invoke p | perform p | respond p => cases hstatus : s.status p <;> simp [machine, hstatus]
  | background op => exact Nat.zero_le 1

theorem length_log_le (M : Machine σ ι ο) (render : ι → ο → ρ) (s : Shared π σ ι ο) (events : List (Event π ι)) :
    (log M render s events).length ≤ events.length := by
  induction events using List.reverseRecOn with
  | nil => exact Nat.le_refl 0
  | append_singleton events event ih =>
    have hone : ∀ s : Shared π σ ι ο, ((machine M render).step s event).1.2.length ≤ 1 := by
      intro s
      cases event with
      | invoke p | perform p | respond p => cases hstatus : s.status p <;> simp [machine, hstatus]
      | background op => exact Nat.le_refl 1
    have hlast := hone ((machine M render).run s events)
    rw [log_concat, List.length_append, List.length_append, List.length_singleton]
    omega

theorem moments_run (M : Machine σ ι ο) (render : ι → ο → ρ) (s₀ : σ) (events : List (Event π ι))
    {before after : List (Observation π ι ρ)} (hsplit : trace M render (start s₀) events = before ++ after) :
    ∃ past future, log M render (start s₀) events = past ++ future ∧ Agrees render before past := by
  induction events using List.reverseRecOn generalizing after with
  | nil =>
    obtain ⟨rfl, -⟩ := List.append_eq_nil_iff.mp hsplit.symm
    exact ⟨[], [], rfl, (accounted_start (M := M) s₀).agrees⟩
  | append_singleton events event ih =>
    have hagrees := (accounted_run M render s₀ (events ++ [event])).agrees
    have hextend : ∀ rest, trace M render (start s₀) events = before ++ rest →
        ∃ past future, log M render (start s₀) (events ++ [event]) = past ++ future ∧ Agrees render before past := by
      intro rest hrest
      obtain ⟨past, future, hlog, hmoment⟩ := ih hrest
      exact ⟨past, _, by rw [log_concat, hlog, List.append_assoc], hmoment⟩
    rw [trace_concat] at hsplit
    rcases List.append_eq_append_iff.mp hsplit with ⟨rest, hbefore, hrest⟩ | ⟨rest, hbefore, -⟩
    · cases rest with
      | nil => exact hextend [] (by rw [hbefore, List.append_nil, List.append_nil])
      | cons x rest =>
        -- one observation at most, so `before` is all of them
        have hlength := length_trace_step M render ((machine M render).run (start s₀) events) event
        rw [hrest, List.length_append, List.length_cons] at hlength
        have hafter : after = [] := List.length_eq_zero_iff.mp (by omega)
        rw [trace_concat, hsplit, hafter, List.append_nil] at hagrees
        exact ⟨_, [], (List.append_nil _).symm, hagrees⟩
    · exact hextend rest hbefore

theorem background_log (M : Machine σ ι ο) (render : ι → ο → ρ) (s : Shared π σ ι ο) (events : List (Event π ι)) :
    background (log M render s events) = events.flatMap Event.unseen := by
  induction events using List.reverseRecOn with
  | nil => rfl
  | append_singleton events event ih =>
    have hone : ∀ s : Shared π σ ι ο, background ((machine M render).step s event).1.2 = event.unseen := by
      intro s
      cases event with
      | invoke p | perform p | respond p =>
        cases hstatus : s.status p <;> simp [machine, hstatus, background, Event.unseen]
      | background op => rfl
    rw [log_concat, background_append, ih, hone, List.flatMap_append, List.flatMap_singleton]

/-- **What is seen of an atomic object is linearizable.** -/
theorem linearization_run (M : Machine σ ι ο) (render : ι → ο → ρ) (s₀ : σ) (events : List (Event π ι)) :
    Linearization M render s₀ ((machine M render).run (start s₀) events).object (events.flatMap Event.unseen)
      (trace M render (start s₀) events) (log M render (start s₀) events) := by
  have h := accounted_run M render s₀ events
  exact ⟨h.outputs, h.run, background_log M render (start s₀) events, h.agrees,
    fun _ _ hsplit => moments_run M render s₀ events hsplit⟩

end Shared

end Lib
