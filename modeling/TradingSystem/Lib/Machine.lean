import Mathlib.Data.List.Basic

/-!
# Deterministic machines

A machine answers an input with an output and a next state. `run` and `outputs` follow a list of
inputs; `Along P` says that each input of the list met `P` in the state it was given to, and
`States I` that each state on the way satisfied `I`. `collect` and `total` gather what the steps contribute.

The rules: an invariant kept by every step holds of every reachable state (`Reachable.invariant`), one
kept by the steps that meet `P` holds all along a run along `P` (`Along.states`), a quantity that
every step lowers by its cost is lowered by the total cost of a run (`conservation`), a step
simulation gives equal outputs (`simulation`), and a property that a step keeps exactly when it meets
`P` holds in all states of a run exactly when the run is along `P` (`states_iff_along`). An input that can be
exchanged with each input of a run can be exchanged with the run (`exchange_run`). An input that lowers a
measure until it changes nothing gives a bounded number of busy outputs (`outputs_replicate`). A machine with other
inputs matches every run when it matches every step (`refinement`, and `outputs_map` for a map of the inputs). A
history kept beside the machine does not change its runs (`withHistory`).
-/

namespace Lib

universe u v w

/-- A deterministic machine with states `σ`, inputs `ι` and outputs `ο`. -/
structure Machine (σ : Type u) (ι : Type v) (ο : Type w) where
  step : σ → ι → ο × σ

namespace Machine

variable {σ : Type u} {ι : Type v} {ο : Type w} (M : Machine σ ι ο)

def next (s : σ) (i : ι) : σ := (M.step s i).2

/-- The state after a list of inputs. -/
def run : σ → List ι → σ
  | s, [] => s
  | s, i :: is => run (M.next s i) is

/-- The outputs to a list of inputs. -/
def outputs : σ → List ι → List ο
  | _, [] => []
  | s, i :: is => (M.step s i).1 :: outputs (M.next s i) is

def Reachable (s₀ s : σ) : Prop := ∃ is, M.run s₀ is = s

/-- Every input meets `P` in the state it is given to. -/
def Along (P : σ → ι → Prop) : σ → List ι → Prop
  | _, [] => True
  | s, i :: is => P s i ∧ Along P (M.next s i) is

/-- Every state of the run satisfies `I`, the first and the last included. -/
def States (I : σ → Prop) : σ → List ι → Prop
  | s, [] => I s
  | s, i :: is => I s ∧ States I (M.next s i) is

/-- What the steps of a run contribute, one after the other. -/
def collect {γ : Type*} (f : σ → ι → List γ) : σ → List ι → List γ
  | _, [] => []
  | s, i :: is => f s i ++ collect f (M.next s i) is

/-- The sum of a cost over the steps of a run. -/
def total (cost : σ → ι → Nat) : σ → List ι → Nat
  | _, [] => 0
  | s, i :: is => cost s i + total cost (M.next s i) is

variable {M}

theorem run_append (s : σ) (is js : List ι) : M.run s (is ++ js) = M.run (M.run s is) js := by
  induction is generalizing s with
  | nil => rfl
  | cons i is ih => exact ih _

theorem outputs_append (s : σ) (is js : List ι) :
    M.outputs s (is ++ js) = M.outputs s is ++ M.outputs (M.run s is) js := by
  induction is generalizing s with
  | nil => rfl
  | cons i is ih => exact congrArg _ (ih _)

theorem along_append {P : σ → ι → Prop} (s : σ) (is js : List ι) :
    M.Along P s (is ++ js) ↔ M.Along P s is ∧ M.Along P (M.run s is) js := by
  induction is generalizing s with
  | nil => simp [Along, run]
  | cons i is ih => simp [Along, run, ih, and_assoc]

theorem along_and {P Q : σ → ι → Prop} (s : σ) (is : List ι) :
    M.Along (fun s i => P s i ∧ Q s i) s is ↔ M.Along P s is ∧ M.Along Q s is := by
  induction is generalizing s with
  | nil => simp [Along]
  | cons i is ih =>
    simp only [Along, ih]
    exact and_and_and_comm

instance decidableAlong (P : σ → ι → Prop) [∀ s, DecidablePred (P s)] (s : σ) :
    DecidablePred (M.Along P s)
  | [] => isTrue trivial
  | i :: is => @instDecidableAnd _ _ _ (decidableAlong P (M.next s i) is)

theorem outputs_length (s : σ) (is : List ι) : (M.outputs s is).length = is.length := by
  induction is generalizing s with
  | nil => rfl
  | cons i is ih => exact congrArg (· + 1) (ih _)

/-- What a run along `P` keeps, when a step that meets `P` keeps it. -/
theorem Along.invariant {P : σ → ι → Prop} {I : σ → Prop} (hstep : ∀ s i, I s → P s i → I (M.next s i))
    {s : σ} {is : List ι} (h : M.Along P s is) (hs : I s) : I (M.run s is) := by
  induction is generalizing s with
  | nil => exact hs
  | cons i is ih => exact ih h.2 (hstep s i hs h.1)

theorem Along.states {P : σ → ι → Prop} {I : σ → Prop} (hstep : ∀ s i, I s → P s i → I (M.next s i))
    {s : σ} {is : List ι} (h : M.Along P s is) (hs : I s) : M.States I s is := by
  induction is generalizing s with
  | nil => exact hs
  | cons i is ih => exact ⟨hs, ih h.2 (hstep s i hs h.1)⟩

theorem States.head {I : σ → Prop} {s : σ} {is : List ι} (h : M.States I s is) : I s := by
  cases is with
  | nil => exact h
  | cons i is => exact h.1

theorem States.last {I : σ → Prop} {s : σ} {is : List ι} (h : M.States I s is) : I (M.run s is) := by
  induction is generalizing s with
  | nil => exact h
  | cons i is ih => exact ih h.2

/-- All states of a run are the ends of its prefixes. -/
theorem states_iff_prefix {I : σ → Prop} {s : σ} {is : List ι} :
    M.States I s is ↔ ∀ before, before <+: is → I (M.run s before) := by
  induction is generalizing s with
  | nil =>
    constructor
    · intro h before hbefore
      rwa [List.prefix_nil.mp hbefore]
    · exact fun h => h [] List.prefix_rfl
  | cons i is ih =>
    constructor
    · intro h before hbefore
      rcases List.prefix_cons_iff.mp hbefore with rfl | ⟨rest, rfl, hrest⟩
      · exact h.1
      · exact ih.mp h.2 rest hrest
    · intro h
      refine ⟨h [] List.nil_prefix, ih.mpr fun before hbefore => ?_⟩
      exact h (i :: before) ((List.prefix_cons_inj i).mpr hbefore)

theorem States.append {I : σ → Prop} {s : σ} {is js : List ι} (h : M.States I s is)
    (h' : M.States I (M.run s is) js) : M.States I s (is ++ js) := by
  induction is generalizing s with
  | nil => exact h'
  | cons i is ih => exact ⟨h.1, ih h.2 h'⟩

theorem States.mono {I K : σ → Prop} (hIK : ∀ s, I s → K s) {s : σ} {is : List ι} (h : M.States I s is) :
    M.States K s is := by
  induction is generalizing s with
  | nil => exact hIK s h
  | cons i is ih => exact ⟨hIK s h.1, ih h.2⟩

/-- A run along `P` is one along what `P` and an invariant of such runs imply. -/
theorem Along.mono {P Q : σ → ι → Prop} {I : σ → Prop} (hstep : ∀ s i, I s → P s i → I (M.next s i))
    (hPQ : ∀ s i, I s → P s i → Q s i) {s : σ} {is : List ι} (h : M.Along P s is) (hs : I s) :
    M.Along Q s is := by
  induction is generalizing s with
  | nil => trivial
  | cons i is ih => exact ⟨hPQ s i hs h.1, ih h.2 (hstep s i hs h.1)⟩

theorem Along.of_forall {P : σ → ι → Prop} {is : List ι} (h : ∀ i ∈ is, ∀ s, P s i) (s : σ) :
    M.Along P s is := by
  induction is generalizing s with
  | nil => trivial
  | cons i is ih =>
    exact ⟨h i List.mem_cons_self s, ih (fun j hj => h j (List.mem_cons_of_mem i hj)) _⟩

theorem run_invariant {I : σ → Prop} (hstep : ∀ s i, I s → I (M.next s i)) {s : σ} (hs : I s)
    (is : List ι) : I (M.run s is) := by
  induction is generalizing s with
  | nil => exact hs
  | cons i is ih => exact ih (hstep s i hs)

/-- An invariant of every step holds of every reachable state. -/
theorem Reachable.invariant {I : σ → Prop} {s₀ s : σ} (h : M.Reachable s₀ s) (h₀ : I s₀)
    (hstep : ∀ s i, I s → I (M.next s i)) : I s := by
  obtain ⟨is, rfl⟩ := h
  exact run_invariant hstep h₀ is

theorem total_le_length {cost : σ → ι → Nat} (h : ∀ s i, cost s i ≤ 1) (s : σ) (is : List ι) :
    M.total cost s is ≤ is.length := by
  induction is generalizing s with
  | nil => exact Nat.le_refl 0
  | cons i is ih =>
    have hfirst := h s i
    have hrest := ih (M.next s i)
    rw [total, List.length_cons]
    omega

/-- What every step loses by its cost, a run loses by the total. -/
theorem conservation {J : σ → Prop} (hJ : ∀ s i, J s → J (M.next s i)) {cost : σ → ι → Nat} {v : σ → Nat}
    (hstep : ∀ s i, J s → v (M.next s i) + cost s i = v s) {s : σ} (hs : J s) (is : List ι) :
    v (M.run s is) + M.total cost s is = v s := by
  induction is generalizing s with
  | nil => rfl
  | cons i is ih =>
    have hrest := ih (hJ s i hs)
    have hfirst := hstep s i hs
    simp only [run, total]
    omega

/-- A relation that each step meeting `P` keeps, with equal outputs, gives equal outputs on runs. -/
theorem simulation {τ : Type*} {N : Machine τ ι ο} {P : σ → ι → Prop} {R : σ → τ → Prop}
    (hstep : ∀ s t i, R s t → P s i → (M.step s i).1 = (N.step t i).1 ∧ R (M.next s i) (N.next t i))
    {s : σ} {t : τ} {is : List ι} (h : M.Along P s is) (hst : R s t) :
    M.outputs s is = N.outputs t is ∧ R (M.run s is) (N.run t is) := by
  induction is generalizing s t with
  | nil => exact ⟨rfl, hst⟩
  | cons i is ih =>
    obtain ⟨hout, hnext⟩ := hstep s t i hst h.1
    obtain ⟨houts, hend⟩ := ih h.2 hnext
    exact ⟨by simp only [outputs, hout, houts], hend⟩

/-- If, under an invariant `J`, a step keeps `I` exactly when it meets `P`, then `I` holds in all
states of a run exactly when the run is along `P`. -/
theorem states_iff_along {P : σ → ι → Prop} {I J : σ → Prop} (hJ : ∀ s i, J s → J (M.next s i))
    (hstep : ∀ s i, J s → I s → (I (M.next s i) ↔ P s i)) {s : σ} (hs : J s) (hI : I s) (is : List ι) :
    M.States I s is ↔ M.Along P s is := by
  induction is generalizing s with
  | nil => exact ⟨fun _ => trivial, fun _ => hI⟩
  | cons i is ih =>
    constructor
    · intro h
      have hnext := h.2.head
      exact ⟨(hstep s i hs hI).mp hnext, (ih (hJ s i hs) hnext).mp h.2⟩
    · intro h
      have hnext := (hstep s i hs hI).mpr h.1
      exact ⟨hI, (ih (hJ s i hs) hnext).mpr h.2⟩

/-- If a step that meets `P` keeps `I`, and one that does not breaks `K`, which `I` implies, then `K` holds in
all states of a run exactly when the run is along `P`. -/
theorem states_iff_along_of_break {P : σ → ι → Prop} {I K : σ → Prop}
    (hkeep : ∀ s i, I s → P s i → I (M.next s i)) (hbreak : ∀ s i, I s → ¬ P s i → ¬ K (M.next s i))
    (hIK : ∀ s, I s → K s) {s : σ} (hs : I s) (is : List ι) : M.States K s is ↔ M.Along P s is := by
  induction is generalizing s with
  | nil => exact ⟨fun _ => trivial, fun _ => hIK s hs⟩
  | cons i is ih =>
    constructor
    · intro h
      have hP : P s i := by
        by_contra hno
        exact hbreak s i hs hno h.2.head
      exact ⟨hP, (ih (hkeep s i hs hP)).mp h.2⟩
    · intro h
      exact ⟨hIK s hs, (ih (hkeep s i hs h.1)).mpr h.2⟩

/-! ### Exchanging an input with a run -/

/-- If input `i` can be exchanged with each input of a run, up to a relation that these inputs keep, it can be
exchanged with the run. -/
theorem exchange_run {R : σ → σ → Prop} {I : σ → Prop} {P : σ → ι → Prop} {Q : ι → Prop} {i : ι}
    (hI : ∀ s j, I s → I (M.next s j)) (hrefl : ∀ s, I s → R s s) (htrans : ∀ s t u, R s t → R t u → R s u)
    (hsim : ∀ s t j, R s t → Q j → (M.step s j).1 = (M.step t j).1 ∧ R (M.next s j) (M.next t j))
    (hswap : ∀ s j, I s → P s j → (M.step s i).1 = (M.step (M.next s j) i).1 ∧
      (M.step (M.next s i) j).1 = (M.step s j).1 ∧ R (M.next (M.next s i) j) (M.next (M.next s j) i))
    {s : σ} {is : List ι} (h : M.Along P s is) (hQ : ∀ j ∈ is, Q j) (hs : I s) :
    (M.step s i).1 = (M.step (M.run s is) i).1 ∧ M.outputs (M.next s i) is = M.outputs s is ∧
      R (M.run (M.next s i) is) (M.next (M.run s is) i) := by
  induction is generalizing s with
  | nil => exact ⟨rfl, rfl, hrefl _ (hI s i hs)⟩
  | cons j is ih =>
    obtain ⟨-, hQs⟩ := List.forall_mem_cons.mp hQ
    obtain ⟨hi, hj, hR⟩ := hswap s j hs h.1
    obtain ⟨hi', houts, hR'⟩ := ih h.2 hQs (hI s j hs)
    have halong : M.Along (fun _ j => Q j) (M.next (M.next s i) j) is := Along.of_forall (fun j hj _ => hQs j hj) _
    obtain ⟨houts', hR''⟩ := simulation hsim halong hR
    refine ⟨hi.trans hi', ?_, htrans _ _ _ hR'' hR'⟩
    rw [outputs, outputs, hj, houts', houts]

/-! ### One input given again and again -/

theorem outputs_replicate_idle {s : σ} {i : ι} {o : ο} (h : M.step s i = (o, s)) (n : Nat) :
    M.outputs s (List.replicate n i) = List.replicate n o := by
  have hnext : M.next s i = s := by rw [next, h]
  induction n with
  | zero => rfl
  | succ n ih => simp only [List.replicate_succ, outputs, hnext, ih, h]

/-- An input that lowers a measure until it changes nothing gives no more busy outputs than the measure,
and then the idle output for ever. -/
theorem outputs_replicate {τ : Type*} {I : σ → Prop} {i : ι} {m : σ → Nat} {busy : τ → ο} {idle : ο}
    (hstep : ∀ s, I s → M.step s i = (idle, s) ∨
      (∃ t, (M.step s i).1 = busy t) ∧ I (M.next s i) ∧ m (M.next s i) < m s)
    {s : σ} (hs : I s) : ∃ ts : List τ, ts.length ≤ m s ∧
      ∀ n, M.outputs s (List.replicate (ts.length + n) i) = ts.map busy ++ List.replicate n idle := by
  induction hk : m s using Nat.strongRecOn generalizing s with
  | ind k ih =>
    rcases hstep s hs with hidle | ⟨⟨t, ht⟩, hnext, hlt⟩
    · refine ⟨[], Nat.zero_le k, fun n => ?_⟩
      rw [List.length_nil, Nat.zero_add, outputs_replicate_idle hidle]
      rfl
    · obtain ⟨ts, hlen, hts⟩ := ih _ (hk ▸ hlt) hnext rfl
      refine ⟨t :: ts, ?_, fun n => ?_⟩
      · rw [List.length_cons, ← hk]
        exact Nat.lt_of_le_of_lt hlen hlt
      · rw [List.length_cons, Nat.add_right_comm, List.replicate_succ, outputs, ht, hts]
        rfl

/-! ### Inputs given in rounds -/

/-- What a run keeps, when each input in it keeps it. -/
theorem run_of_forall {I : σ → Prop} {Q : ι → Prop} (hstep : ∀ s i, I s → Q i → I (M.next s i)) {s : σ}
    (hs : I s) {is : List ι} (hQ : ∀ i ∈ is, Q i) : I (M.run s is) :=
  (Along.of_forall (P := fun _ i => Q i) (fun i hi _ => hQ i hi) s).invariant hstep hs

/-- A measure that no input raises, and that each run with the inputs of a round in it lowers, is 0 after as many
rounds as it was, whatever inputs come between. -/
theorem run_rounds {I : σ → Prop} {Q : ι → Prop} {m : σ → Nat} {round : List ι}
    (hstep : ∀ s i, I s → Q i → I (M.next s i) ∧ m (M.next s i) ≤ m s)
    (hround : ∀ s is, I s → (∀ i ∈ is, Q i) → List.Sublist round is → m s ≠ 0 → m (M.run s is) < m s)
    {s : σ} (hs : I s) {is : List ι} (hQ : ∀ i ∈ is, Q i) {n : Nat} (hn : m s ≤ n)
    (hrounds : List.Sublist (List.replicate n round).flatten is) : I (M.run s is) ∧ m (M.run s is) = 0 := by
  have hrun : ∀ s is, I s → (∀ i ∈ is, Q i) → I (M.run s is) ∧ m (M.run s is) ≤ m s := by
    intro s is hs hQ
    refine run_of_forall (I := fun s' => I s' ∧ m s' ≤ m s) (fun s' i hs' hi => ?_) ⟨hs, Nat.le_refl _⟩ hQ
    obtain ⟨hI, hle⟩ := hstep s' i hs'.1 hi
    exact ⟨hI, Nat.le_trans hle hs'.2⟩
  induction n generalizing s is with
  | zero =>
    obtain ⟨hI, hle⟩ := hrun s is hs hQ
    exact ⟨hI, Nat.le_zero.mp (Nat.le_trans hle hn)⟩
  | succ n ih =>
    rw [List.replicate_succ, List.flatten_cons, List.append_sublist_iff] at hrounds
    obtain ⟨is₁, is₂, rfl, hround₁, hrounds⟩ := hrounds
    obtain ⟨hQ₁, hQ₂⟩ := List.forall_mem_append.mp hQ
    obtain ⟨hI, hle⟩ := hrun s is₁ hs hQ₁
    rw [run_append]
    refine ih hI hQ₂ ?_ hrounds
    by_cases hzero : m s = 0
    · omega
    · have hlt := hround s is₁ hs hQ₁ hround₁ hzero
      omega

/-! ### Machines with other inputs -/

/-- If every step that meets `P` is matched by a step of `N` that shows the same, or by none, every run along `P` is
matched by a run of `N` that shows the same and is no longer. What the inputs of `N` carry is what the steps
contribute. -/
theorem refinement {τ κ ω β γ : Type*} {N : Machine τ κ ω} {P : σ → ι → Prop} {R : σ → τ → Prop}
    {shows : ο → List β} {shows' : ω → List β} {carries : κ → List γ} {f : σ → ι → List γ}
    (hstep : ∀ s t i, R s t → P s i → ∃ ks, ks.length ≤ 1 ∧ R (M.next s i) (N.run t ks) ∧
      (N.outputs t ks).flatMap shows' = shows (M.step s i).1 ∧ ks.flatMap carries = f s i)
    {s : σ} {t : τ} {is : List ι} (h : M.Along P s is) (hst : R s t) :
    ∃ ks, ks.length ≤ is.length ∧ R (M.run s is) (N.run t ks) ∧
      (N.outputs t ks).flatMap shows' = (M.outputs s is).flatMap shows ∧ ks.flatMap carries = M.collect f s is := by
  induction is generalizing s t with
  | nil => exact ⟨[], Nat.le_refl 0, hst, rfl, rfl⟩
  | cons i is ih =>
    obtain ⟨ks, hone, hnext, hshows, hcarries⟩ := hstep s t i hst h.1
    obtain ⟨ks', hlength, hend, hshows', hcarries'⟩ := ih h.2 hnext
    refine ⟨ks ++ ks', ?_, by rwa [run_append], ?_, ?_⟩
    · rw [List.length_append, List.length_cons]
      omega
    · rw [outputs_append, List.flatMap_append, hshows, hshows', outputs, List.flatMap_cons]
    · rw [List.flatMap_append, hcarries, hcarries', collect]

/-- If every step is matched by the step of `N` at the image of its input, with related outputs, so is every run. -/
theorem outputs_map {τ κ ω : Type*} {N : Machine τ κ ω} {f : ι → κ} {R : σ → τ → Prop} {Q : ο → ω → Prop}
    (hstep : ∀ s t i, R s t → Q (M.step s i).1 (N.step t (f i)).1 ∧ R (M.next s i) (N.next t (f i)))
    {s : σ} {t : τ} (hst : R s t) (is : List ι) :
    List.Forall₂ Q (M.outputs s is) (N.outputs t (is.map f)) ∧ R (M.run s is) (N.run t (is.map f)) := by
  induction is generalizing s t with
  | nil => exact ⟨.nil, hst⟩
  | cons i is ih =>
    obtain ⟨hout, hnext⟩ := hstep s t i hst
    obtain ⟨houts, hend⟩ := ih hnext
    exact ⟨.cons hout houts, hend⟩

/-! ### Outputs as an observer reads them -/

section Relabel

variable {ο' : Type*} (M) (f : σ → ο → ο')

/-- The machine whose outputs are read in the state after the step. -/
def relabel : Machine σ ι ο' where
  step s i := (f (M.next s i) (M.step s i).1, M.next s i)

theorem run_relabel (s : σ) (is : List ι) : (M.relabel f).run s is = M.run s is := by
  induction is generalizing s with
  | nil => rfl
  | cons i is ih => exact ih _

theorem along_relabel {P : σ → ι → Prop} (s : σ) (is : List ι) :
    (M.relabel f).Along P s is ↔ M.Along P s is := by
  induction is generalizing s with
  | nil => exact Iff.rfl
  | cons i is ih => exact and_congr_right fun _ => ih _

end Relabel

/-! ### History variables -/

section History

variable {γ : Type*} (M) (record : γ → σ → ι → γ)

/-- The machine with a history that each step adds to and none reads. -/
def withHistory : Machine (σ × γ) ι ο where
  step s i := ((M.step s.1 i).1, (M.next s.1 i, record s.2 s.1 i))

theorem run_withHistory_fst (s : σ × γ) (is : List ι) :
    ((M.withHistory record).run s is).1 = M.run s.1 is := by
  induction is generalizing s with
  | nil => rfl
  | cons i is ih => exact ih _

theorem along_withHistory {P : σ → ι → Prop} (s : σ × γ) (is : List ι) :
    (M.withHistory record).Along (fun s => P s.1) s is ↔ M.Along P s.1 is := by
  induction is generalizing s with
  | nil => exact Iff.rfl
  | cons i is ih => exact and_congr_right fun _ => ih _

end History

end Machine

end Lib
