import Mathlib.Data.List.Basic
import Mathlib.Tactic.Common

/-!
# Labelled partial steps, their runs, and commuting threads

A system is a function `step : ℓ → σ → Option σ`: a label says who moves (and
what the environment answers), `none` says that the move is not enabled.  A run
is a list of labels.

* `Reach step ok s₀ s`: `s` is reached from `s₀` by steps that all meet `ok`, a
  condition on the label and on the state *before* the step.
  `Reach.invariant` is the one induction every safety theorem goes through, and
  `Reach.simulation` the one for a refinement.
* `Inevitable R P s`: along every `R`-path from `s` a state with `P` comes, and
  no path gets stuck before.
* `Commutes f g`: two enabled moves do not disturb each other.  For threads that
  share nothing but first-in first-out streams this is a theorem about
  `append` and `pop`; from it every schedule ends in the same state
  (`Commutes.diamond`, `Diamond.inevitable`), so one run decides what all
  interleavings do.
-/

namespace Interleave

variable {σ ℓ : Type*}

/-! ### Runs -/

/-- The state after a list of moves, if all of them are enabled. -/
def run (step : ℓ → σ → Option σ) : List ℓ → σ → Option σ
  | [], s => some s
  | l :: ls, s => (step l s).bind (run step ls)

@[simp] theorem run_nil (step : ℓ → σ → Option σ) (s : σ) : run step [] s = some s := rfl

@[simp] theorem run_cons (step : ℓ → σ → Option σ) (l : ℓ) (ls : List ℓ) (s : σ) :
    run step (l :: ls) s = (step l s).bind (run step ls) := rfl

/-- The states reached by steps that all meet `ok`. -/
inductive Reach (step : ℓ → σ → Option σ) (ok : ℓ → σ → Prop) (s₀ : σ) : σ → Prop
  | refl : Reach step ok s₀ s₀
  | tail {s t : σ} {l : ℓ} : Reach step ok s₀ s → ok l s → step l s = some t →
      Reach step ok s₀ t

section Reach

variable {step : ℓ → σ → Option σ} {ok : ℓ → σ → Prop} {s₀ : σ}

/-- **An invariant of the steps holds in every state reached.** -/
theorem Reach.invariant {I : σ → Prop} (h0 : I s₀)
    (hstep : ∀ s t l, I s → ok l s → step l s = some t → I t) :
    ∀ {s : σ}, Reach step ok s₀ s → I s := by
  intro s h
  induction h with
  | refl => exact h0
  | tail _ hok hs ih => exact hstep _ _ _ ih hok hs

/-- A condition that an invariant makes true may be added to the condition of
the run. -/
theorem Reach.strengthen {I : σ → Prop} {ok' : ℓ → σ → Prop} (h0 : I s₀)
    (hstep : ∀ s t l, I s → ok l s → step l s = some t → I t)
    (hok : ∀ s l, I s → ok l s → ok' l s) :
    ∀ {s : σ}, Reach step ok s₀ s → Reach step ok' s₀ s := by
  intro s h
  induction h with
  | refl => exact .refl
  | tail hr hl hs ih => exact .tail ih (hok _ _ (hr.invariant h0 hstep) hl) hs

theorem Reach.trans {s t : σ} (h : Reach step ok s₀ s) (h' : Reach step ok s t) :
    Reach step ok s₀ t := by
  induction h' with
  | refl => exact h
  | tail _ hok hs ih => exact .tail ih hok hs

theorem Reach.of_run [∀ l s, Decidable (ok l s)] :
    ∀ {ls : List ℓ} {s t : σ},
      run (fun l s => if ok l s then step l s else none) ls s = some t → Reach step ok s t := by
  intro ls
  induction ls with
  | nil =>
    intro s t h
    rw [run_nil, Option.some.injEq] at h
    exact h ▸ .refl
  | cons l ls ih =>
    intro s t h
    rw [run_cons, Option.bind_eq_some_iff] at h
    obtain ⟨u, hu, h⟩ := h
    by_cases hok : ok l s
    · rw [if_pos hok] at hu
      exact (Reach.tail .refl hok hu).trans (ih h)
    · rw [if_neg hok] at hu
      cases hu

theorem Reach.exists_of_run [∀ l s, Decidable (ok l s)] {α : Type*} {f : σ → α} {ls : List ℓ}
    {s : σ} {a : α} (h : (run (fun l s => if ok l s then step l s else none) ls s).map f = some a) :
    ∃ t, Reach step ok s t ∧ f t = a := by
  obtain ⟨t, ht, hf⟩ := Option.map_eq_some_iff.mp h
  exact ⟨t, .of_run ht, hf⟩

theorem Reach.single {t : σ} {l : ℓ} (hok : ok l s₀) (h : step l s₀ = some t) :
    Reach step ok s₀ t := .tail .refl hok h

/-- **Forward simulation.**  If every step is matched by some steps of another system, so is
every run. -/
theorem Reach.simulation {τ m : Type*} {step' : m → τ → Option τ} {ok' : m → τ → Prop}
    {R : σ → τ → Prop} {a₀ : τ} (h0 : R s₀ a₀)
    (hstep : ∀ s t l a, R s a → ok l s → step l s = some t →
      ∃ b, Reach step' ok' a b ∧ R t b) :
    ∀ {s : σ}, Reach step ok s₀ s → ∃ a, Reach step' ok' a₀ a ∧ R s a := by
  intro s h
  induction h with
  | refl => exact ⟨a₀, .refl, h0⟩
  | tail _ hok hs ih =>
    obtain ⟨a, ha, hR⟩ := ih
    obtain ⟨b, hb, hR⟩ := hstep _ _ _ _ hR hok hs
    exact ⟨b, ha.trans hb, hR⟩

end Reach

/-! ### Paths of an unlabelled relation -/

/-- `Path R n s t`: `t` is `n` steps of `R` after `s`. -/
inductive Path (R : σ → σ → Prop) : Nat → σ → σ → Prop
  | nil (s : σ) : Path R 0 s s
  | cons {n : Nat} {s t u : σ} : R s t → Path R n t u → Path R (n + 1) s u

/-- No step leaves the state. -/
def Stuck (R : σ → σ → Prop) (s : σ) : Prop := ∀ t, ¬ R s t

/-- On every path from `s` a state with `P` comes, and none ends before. -/
inductive Inevitable (R : σ → σ → Prop) (P : σ → Prop) : σ → Prop
  | now {s : σ} : P s → Inevitable R P s
  | later {s : σ} : (∃ t, R s t) → (∀ t, R s t → Inevitable R P t) → Inevitable R P s

section Paths

variable {R : σ → σ → Prop}

theorem Path.single {s t : σ} (h : R s t) : Path R 1 s t := .cons h (.nil t)

theorem Path.trans {n m : Nat} {s t u : σ} (h : Path R n s t) (h' : Path R m t u) :
    Path R (n + m) s u := by
  induction h with
  | nil => rwa [Nat.zero_add]
  | @cons n s t u hst _ ih =>
    rw [Nat.add_right_comm]
    exact .cons hst (ih h')

theorem Path.invariant {I : σ → Prop} (hstep : ∀ s t, R s t → I s → I t) {n : Nat} {s t : σ}
    (h : Path R n s t) : I s → I t := by
  induction h with
  | nil => exact id
  | cons hst _ ih => exact fun hi => ih (hstep _ _ hst hi)

theorem Path.of_run {step : ℓ → σ → Option σ} :
    ∀ {ls : List ℓ} {s t : σ}, (∀ l ∈ ls, ∀ a b, step l a = some b → R a b) →
      run step ls s = some t → Path R ls.length s t := by
  intro ls
  induction ls with
  | nil =>
    intro s t _ h
    rw [run_nil, Option.some.injEq] at h
    exact h ▸ .nil s
  | cons l ls ih =>
    intro s t hall h
    rw [run_cons, Option.bind_eq_some_iff] at h
    obtain ⟨u, hu, h⟩ := h
    exact .cons (hall l List.mem_cons_self s u hu)
      (ih (fun m hm => hall m (List.mem_cons_of_mem l hm)) h)

theorem Inevitable.mono {P Q : σ → Prop} (hPQ : ∀ s, P s → Q s) {s : σ}
    (h : Inevitable R P s) : Inevitable R Q s := by
  induction h with
  | now hp => exact .now (hPQ _ hp)
  | later hex _ ih => exact .later hex ih

/-- What no step changes is, at the end, what it was at the start. -/
theorem Inevitable.exists_of_invariant {P I : σ → Prop}
    (hstep : ∀ s t, R s t → I s → I t) {s : σ} (h : Inevitable R P s) (hi : I s) :
    ∃ t, P t ∧ I t := by
  induction h with
  | now hp => exact ⟨_, hp, hi⟩
  | later hex _ ih =>
    obtain ⟨t, ht⟩ := hex
    exact ih t ht (hstep _ _ ht hi)

/-- **The ranking rule.**  Where an invariant gives an enabled step that is
still to come and every step lowers a rank, the goal is inevitable. -/
theorem Inevitable.of_rank {P I : σ → Prop} (rank : σ → Nat)
    (hex : ∀ s, I s → ¬ P s → ∃ t, R s t)
    (hstep : ∀ s t, I s → ¬ P s → R s t → I t ∧ rank t < rank s) :
    ∀ {s : σ}, I s → Inevitable R P s := by
  intro s
  induction hn : rank s using Nat.strongRecOn generalizing s with
  | _ n ih =>
    intro hi
    by_cases hp : P s
    · exact .now hp
    · refine .later (hex s hi hp) (fun t ht => ?_)
      obtain ⟨hit, hlt⟩ := hstep s t hi hp ht
      exact ih (rank t) (hn ▸ hlt) rfl hit

end Paths

/-! ### Commuting moves -/

/-- Two different steps from one state can be joined by one step each. -/
def Diamond (R : σ → σ → Prop) : Prop :=
  ∀ s a b, R s a → R s b → a = b ∨ ∃ c, R a c ∧ R b c

/-- When both moves are enabled, each stays enabled after the other and the
order does not matter. -/
def Commutes (f g : σ → Option σ) : Prop :=
  ∀ s a b, f s = some a → g s = some b → ∃ c, g a = some c ∧ f b = some c

/-- One of two threads moves. -/
def Either (f g : σ → Option σ) (s t : σ) : Prop := f s = some t ∨ g s = some t

/-- **Two commuting threads have the diamond property.** -/
theorem Commutes.diamond {f g : σ → Option σ} (h : Commutes f g) : Diamond (Either f g) := by
  rintro s a b (ha | ha) (hb | hb)
  · exact Or.inl (Option.some.inj (ha.symm.trans hb))
  · obtain ⟨c, hc, hc'⟩ := h s a b ha hb
    exact Or.inr ⟨c, Or.inr hc, Or.inl hc'⟩
  · obtain ⟨c, hc, hc'⟩ := h s b a hb ha
    exact Or.inr ⟨c, Or.inl hc', Or.inr hc⟩
  · exact Or.inl (Option.some.inj (ha.symm.trans hb))

/-- A third move that commutes with both threads can be made before a path of
theirs instead of after it. -/
theorem Commutes.path {f g e : σ → Option σ} (hf : Commutes e f) (hg : Commutes e g)
    {n : Nat} {s t : σ} (h : Path (Either f g) n s t) :
    ∀ {a : σ}, e s = some a → ∃ b, e t = some b ∧ Path (Either f g) n a b := by
  induction h with
  | nil s => intro a ha; exact ⟨a, ha, .nil a⟩
  | cons hst _ ih =>
    intro a ha
    rcases hst with hst | hst
    · obtain ⟨c, hc, hc'⟩ := hf _ _ _ ha hst
      obtain ⟨b, hb, hp⟩ := ih hc'
      exact ⟨b, hb, .cons (Or.inl hc) hp⟩
    · obtain ⟨c, hc, hc'⟩ := hg _ _ _ ha hst
      obtain ⟨b, hb, hp⟩ := ih hc'
      exact ⟨b, hb, .cons (Or.inr hc) hp⟩

/-- A single thread has no schedules to choose from. -/
theorem Diamond.of_fun (f : σ → Option σ) : Diamond (fun s t => f s = some t) :=
  fun _ _ _ ha hb => Or.inl (Option.some.inj (ha.symm.trans hb))

section Diamond

variable {R : σ → σ → Prop}

/-- **Random descent.**  If one path ends in a stuck state, then after any other
first step the same state is still to be reached, in one step less. -/
theorem Diamond.descend (hR : Diamond R) {n : Nat} {s t : σ} (h : Path R n s t)
    (ht : Stuck R t) : ∀ {a : σ}, R s a → ∃ m, n = m + 1 ∧ Path R m a t := by
  induction h with
  | nil s => intro a ha; exact absurd ha (ht a)
  | @cons n s u t hsu hp ih =>
    intro a ha
    rcases hR s a u ha hsu with rfl | ⟨c, hac, huc⟩
    · exact ⟨n, rfl, hp⟩
    · obtain ⟨m, rfl, hm⟩ := ih ht huc
      exact ⟨m + 1, rfl, .cons hac hm⟩

/-- **One run decides all schedules.**  If some path from `s` ends in a stuck
state, then every path from `s` ends there. -/
theorem Diamond.inevitable (hR : Diamond R) {t : σ} (ht : Stuck R t) :
    ∀ {n : Nat} {s : σ}, Path R n s t → Inevitable R (fun u => u = t) s := by
  intro n
  induction n with
  | zero => intro s h; cases h; exact .now rfl
  | succ n ih =>
    intro s h
    obtain ⟨u, hsu⟩ : ∃ u, R s u := by
      cases h with
      | cons hsu _ => exact ⟨_, hsu⟩
    refine .later ⟨u, hsu⟩ (fun a ha => ?_)
    obtain ⟨m, hm, hp⟩ := hR.descend h ht ha
    obtain rfl : n = m := by omega
    exact ih hp

/-- Whatever has been done so far, the stuck state is still to be reached. -/
theorem Diamond.path_tail (hR : Diamond R) {t : σ} (ht : Stuck R t) {m : Nat} {s a : σ}
    (ha : Path R m s a) : ∀ {n : Nat}, Path R n s t → ∃ k, Path R k a t := by
  induction ha with
  | nil s => intro n h; exact ⟨n, h⟩
  | cons hsb _ ih =>
    intro n h
    obtain ⟨k, _, hk⟩ := hR.descend h ht hsb
    exact ih hk

end Diamond

end Interleave
