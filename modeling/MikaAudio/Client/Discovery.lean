import MikaAudio.Lib.Interleave

/-!
# The discovery flag

`P2PManager.discovering` is set when `connect()` asks `NsdManager` for a discovery and
cleared where one is stopped.  `NsdManager` knows a discovery by its listener; a call of
`stopServiceDiscovery` for a listener it does not know any more ends with an exception.

Methods and callbacks are atomic steps here.  A discovery is outstanding as long as it has
not failed to start and nobody has asked to stop it.  The flag says whether the current one
is, unless one of the two failures is reported (`truthful_iff`): both callbacks stop the
discovery of a listener that has none, and the first one leaves the flag set.
-/

namespace MikaAudio.Client

open Interleave (run)

/-- What became of `discoverServices(.., listener)`. -/
structure Request where
  /-- `onDiscoveryStarted` or `onStartDiscoveryFailed` was called. -/
  started : Option Bool := none
  /-- `stopServiceDiscovery(listener)` was called. -/
  asked : Bool := false
  /-- `onDiscoveryStopped` or `onStopDiscoveryFailed` was called. -/
  stopped : Option Bool := none
  deriving DecidableEq

/-- The discovery has not failed to start, and nobody has asked to stop it. -/
def Request.outstanding (r : Request) : Bool :=
  decide (r.started ≠ some false) && !r.asked

/-- The fields of `P2PManager`; listeners are numbered as they are made.  `resolving` counts
the services that are being resolved, and `rejected` says that `stopServiceDiscovery` was
called for a listener without a discovery; the program keeps neither. -/
structure Discovery where
  discovering : Bool := false
  discoveryListener : Option Nat := none
  requests : List Request := []
  resolving : Nat := 0
  rejected : Bool := false
  deriving DecidableEq

namespace Discovery

/-- The listener has a discovery. -/
def Outstanding (s : Discovery) (listener : Nat) : Prop :=
  ∃ r, s.requests[listener]? = some r ∧ r.outstanding = true

instance (s : Discovery) (listener : Nat) : Decidable (s.Outstanding listener) :=
  decidable_of_iff ((s.requests[listener]?.any Request.outstanding) = true) (by
    unfold Outstanding
    cases s.requests[listener]?
    · simp
    · simp)

/-- The current discovery is outstanding. -/
def Searching (s : Discovery) : Prop :=
  ∃ listener, s.discoveryListener = some listener ∧ s.Outstanding listener

/-- Something is noted about a request. -/
def note (listener : Nat) (f : Request → Request) (s : Discovery) : Discovery :=
  { s with requests := s.requests.modify listener f }

/-- `nsdManager.stopServiceDiscovery(listener)`, and whether it returns; it throws an exception
if the listener has no discovery. -/
def stopServiceDiscovery (listener : Option Nat) (s : Discovery) : Discovery × Bool :=
  match listener with
  | some i =>
    if s.Outstanding i then (s.note i ({ · with asked := true }), true)
    else ({ s with rejected := true }, false)
  | none => ({ s with rejected := true }, false)

/-- `connect()`. -/
def connect (s : Discovery) : Discovery :=
  if s.discovering then s
  else { s with
    discovering := true
    discoveryListener := some s.requests.length
    requests := s.requests ++ [{}] }

/-- `onDestroy()`, and whether it returns. -/
def onDestroy (s : Discovery) : Discovery × Bool :=
  if s.discovering then
    stopServiceDiscovery s.discoveryListener { s with discovering := false }
  else (s, true)

/-- `onServiceResolved` after `setSocket`, which has thrown an `IOException` or not. -/
def onServiceResolved (ok : Bool) (s : Discovery) : Discovery :=
  if ok then
    if s.discovering then
      let (s, returned) := stopServiceDiscovery s.discoveryListener s
      if returned then { s with discovering := false } else s
    else { s with discovering := false }
  else
    let (s, returned) := s.onDestroy
    if returned then s.connect else s

/-- What happens next; a callback is named with its listener's number. -/
inductive Label
  | connect
  | onDestroy
  | onDiscoveryStarted (listener : Nat)
  | onStartDiscoveryFailed (listener : Nat)
  | onDiscoveryStopped (listener : Nat)
  | onStopDiscoveryFailed (listener : Nat)
  /-- `onServiceFound`; the type and the name match or not. -/
  | onServiceFound (matching : Bool)
  | onResolveFailed
  /-- `onServiceResolved`; `setSocket` succeeds or throws. -/
  | onServiceResolved (ok : Bool)
  deriving DecidableEq

/-- The request has got no answer to its start. -/
def Unstarted (s : Discovery) (listener : Nat) : Prop :=
  s.requests[listener]?.map (·.started) = some none

/-- The request has got no answer to its stop. -/
def Unstopped (s : Discovery) (listener : Nat) : Prop :=
  s.requests[listener]?.map (fun r => (r.asked, r.stopped)) = some (true, none)

instance (s : Discovery) (listener : Nat) : Decidable (s.Unstarted listener) :=
  inferInstanceAs (Decidable (_ = _))

instance (s : Discovery) (listener : Nat) : Decidable (s.Unstopped listener) :=
  inferInstanceAs (Decidable (_ = _))

/-- One call. -/
def step (l : Label) (s : Discovery) : Option Discovery :=
  match l with
  | .connect => some s.connect
  | .onDestroy => some s.onDestroy.1
  | .onDiscoveryStarted i =>
    if s.Unstarted i then some (s.note i ({ · with started := some true })) else none
  | .onStartDiscoveryFailed i =>
    if s.Unstarted i then
      some (stopServiceDiscovery (some i) (s.note i ({ · with started := some false }))).1
    else none
  | .onDiscoveryStopped i =>
    if s.Unstopped i then some (s.note i ({ · with stopped := some true })) else none
  | .onStopDiscoveryFailed i =>
    if s.Unstopped i then
      some (stopServiceDiscovery (some i) (s.note i ({ · with stopped := some false }))).1
    else none
  | .onServiceFound matching =>
    if s.requests = [] then none
    else some { s with resolving := if matching then s.resolving + 1 else s.resolving }
  | .onResolveFailed =>
    if 0 < s.resolving then some { s with resolving := s.resolving - 1 } else none
  | .onServiceResolved ok =>
    if 0 < s.resolving then
      some (onServiceResolved ok { s with resolving := s.resolving - 1 })
    else none

/-- The flag tells the truth, and no call of `stopServiceDiscovery` was rejected. -/
structure Truthful (s : Discovery) : Prop where
  flag : s.discovering = true ↔ s.Searching
  accepted : s.rejected = false

/-- The callback reports a failure of `NsdManager`. -/
def Label.failure : Label → Bool
  | .onStartDiscoveryFailed _ => true
  | .onStopDiscoveryFailed _ => true
  | _ => false

variable {s t : Discovery} {i : Nat} {f : Request → Request}

/-! ### What the calls do -/

@[simp] theorem discoveryListener_note :
    (s.note i f).discoveryListener = s.discoveryListener := rfl

theorem outstanding_note_ne {j : Nat} (h : i ≠ j) :
    (s.note i f).Outstanding j ↔ s.Outstanding j := by
  simp only [Outstanding, note, List.getElem?_modify_ne f _ h]

theorem outstanding_note (hf : ∀ r, s.requests[i]? = some r → (f r).outstanding = r.outstanding)
    (j : Nat) : (s.note i f).Outstanding j ↔ s.Outstanding j := by
  by_cases h : i = j
  · subst h
    simp only [Outstanding, note, List.getElem?_modify_eq]
    cases hr : s.requests[i]? with
    | none => simp
    | some r => simp [hf r hr]
  · exact outstanding_note_ne h

theorem searching_note
    (hf : ∀ r, s.requests[i]? = some r → (f r).outstanding = r.outstanding) :
    (s.note i f).Searching ↔ s.Searching := by
  simp only [Searching, discoveryListener_note, outstanding_note hf]

theorem not_outstanding_asked : ¬ (s.note i ({ · with asked := true })).Outstanding i := by
  rintro ⟨r, hr, hout⟩
  rw [note, List.getElem?_modify_eq] at hr
  obtain ⟨r, _, rfl⟩ := Option.map_eq_some_iff.mp hr
  simp [Request.outstanding] at hout

theorem stopServiceDiscovery_searching (h : s.Searching) :
    ∃ i, s.discoveryListener = some i ∧
      stopServiceDiscovery s.discoveryListener s = (s.note i ({ · with asked := true }), true) := by
  obtain ⟨i, hi, hout⟩ := h
  refine ⟨i, hi, ?_⟩
  rw [hi]
  exact if_pos hout

theorem not_searching_asked (hi : s.discoveryListener = some i) :
    ¬ (s.note i ({ · with asked := true })).Searching := by
  rintro ⟨j, hj, hout⟩
  obtain rfl : i = j := Option.some.inj (hi.symm.trans hj)
  exact not_outstanding_asked hout

theorem Truthful.congr (h : Truthful s) (hd : t.discovering = s.discovering)
    (hsearch : t.Searching ↔ s.Searching) (hr : t.rejected = s.rejected) : Truthful t :=
  ⟨by rw [hd, hsearch]; exact h.flag, hr.trans h.accepted⟩

theorem Truthful.connect (h : Truthful s) : Truthful s.connect := by
  unfold Discovery.connect
  split_ifs with hd
  · exact h
  · refine ⟨iff_of_true rfl ⟨s.requests.length, rfl, {}, ?_, rfl⟩, h.accepted⟩
    exact List.getElem?_concat_length

theorem Truthful.stopped (h : Truthful s) (hi : s.discoveryListener = some i) :
    Truthful { s.note i ({ · with asked := true }) with discovering := false } :=
  ⟨iff_of_false Bool.false_ne_true (not_searching_asked hi), h.accepted⟩

theorem Truthful.onDestroy (h : Truthful s) :
    Truthful s.onDestroy.1 ∧ s.onDestroy.2 = true := by
  unfold Discovery.onDestroy
  split_ifs with hd
  · have hsearch : Searching { s with discovering := false } := h.flag.mp hd
    obtain ⟨i, hi, hstop⟩ := stopServiceDiscovery_searching hsearch
    rw [show s.discoveryListener = ({ s with discovering := false } : Discovery).discoveryListener
      from rfl, hstop]
    exact ⟨h.stopped hi, rfl⟩
  · exact ⟨h, rfl⟩

theorem Truthful.onServiceResolved (h : Truthful s) (ok : Bool) :
    Truthful (onServiceResolved ok s) := by
  cases ok with
  | true =>
    by_cases hd : s.discovering = true
    · obtain ⟨i, hi, hstop⟩ := stopServiceDiscovery_searching (h.flag.mp hd)
      simp only [Discovery.onServiceResolved, if_true, hd, hstop]
      exact h.stopped hi
    · have hfalse := Bool.eq_false_iff.mpr hd
      simp only [Discovery.onServiceResolved, if_true, if_neg hd]
      exact h.congr hfalse.symm Iff.rfl rfl
  | false =>
    obtain ⟨hdestroy, hreturned⟩ := h.onDestroy
    simp only [Discovery.onServiceResolved, Bool.false_eq_true, if_false, hreturned, if_true]
    exact hdestroy.connect

/-! ### One call -/

/-- **A call that reports no failure keeps the flag truthful.** -/
theorem Truthful.step (h : Truthful s) {l : Label} (hl : l.failure = false)
    (hst : Discovery.step l s = some t) : Truthful t := by
  cases l with
  | connect =>
    cases hst
    exact h.connect
  | onDestroy =>
    cases hst
    exact h.onDestroy.1
  | onDiscoveryStarted i =>
    rw [Discovery.step] at hst
    split_ifs at hst with hun
    cases hst
    refine h.congr rfl (searching_note fun r hr => ?_) rfl
    rw [Unstarted, hr, Option.map_some, Option.some.injEq] at hun
    simp [Request.outstanding, hun]
  | onDiscoveryStopped i =>
    rw [Discovery.step] at hst
    split_ifs at hst
    cases hst
    exact h.congr rfl (searching_note fun _ _ => rfl) rfl
  | onServiceFound matching =>
    simp only [Discovery.step] at hst
    split at hst
    · cases hst
    · cases hst
      exact h.congr rfl Iff.rfl rfl
  | onResolveFailed =>
    rw [Discovery.step] at hst
    split_ifs at hst
    cases hst
    exact h.congr rfl Iff.rfl rfl
  | onServiceResolved ok =>
    rw [Discovery.step] at hst
    split_ifs at hst
    cases hst
    have hresolving : Truthful { s with resolving := s.resolving - 1 } := h.congr rfl Iff.rfl rfl
    exact hresolving.onServiceResolved ok
  | onStartDiscoveryFailed i | onStopDiscoveryFailed i => cases hl

theorem rejected_stopServiceDiscovery (listener : Option Nat) (h : s.rejected = true) :
    (stopServiceDiscovery listener s).1.rejected = true := by
  unfold stopServiceDiscovery
  cases listener with
  | none => rfl
  | some i =>
    dsimp only
    split_ifs
    · exact h
    · rfl

theorem rejected_connect (h : s.rejected = true) : s.connect.rejected = true := by
  unfold Discovery.connect
  split_ifs
  · exact h
  · exact h

theorem rejected_onDestroy (h : s.rejected = true) : s.onDestroy.1.rejected = true := by
  unfold Discovery.onDestroy
  split_ifs
  · exact rejected_stopServiceDiscovery s.discoveryListener h
  · exact h

theorem rejected_onServiceResolved (ok : Bool) (h : s.rejected = true) :
    (onServiceResolved ok s).rejected = true := by
  cases ok with
  | true =>
    simp only [Discovery.onServiceResolved, if_true]
    have hstop := rejected_stopServiceDiscovery s.discoveryListener h
    split_ifs
    all_goals assumption
  | false =>
    simp only [Discovery.onServiceResolved, Bool.false_eq_true, if_false]
    have hdestroy := rejected_onDestroy h
    split_ifs
    · exact rejected_connect hdestroy
    · exact hdestroy

theorem rejected_step {l : Label} (h : s.rejected = true) (hst : Discovery.step l s = some t) :
    t.rejected = true := by
  cases l with
  | connect =>
    cases hst
    exact rejected_connect h
  | onDestroy =>
    cases hst
    exact rejected_onDestroy h
  | onDiscoveryStarted i | onDiscoveryStopped i | onResolveFailed =>
    rw [Discovery.step] at hst
    split_ifs at hst
    cases hst
    exact h
  | onServiceFound matching =>
    simp only [Discovery.step] at hst
    split at hst
    · cases hst
    · cases hst
      exact h
  | onStartDiscoveryFailed i | onStopDiscoveryFailed i =>
    rw [Discovery.step] at hst
    split_ifs at hst
    cases hst
    exact rejected_stopServiceDiscovery (some i) h
  | onServiceResolved ok =>
    rw [Discovery.step] at hst
    split_ifs at hst
    cases hst
    exact rejected_onServiceResolved ok h

/-- **A reported failure makes the callback stop what is not outstanding.** -/
theorem rejected_of_failure {l : Label} (hl : l.failure = true)
    (hst : Discovery.step l s = some t) : t.rejected = true := by
  cases l with
  | onStartDiscoveryFailed i =>
    rw [Discovery.step] at hst
    split_ifs at hst
    cases hst
    have hnot : ¬ (s.note i ({ · with started := some false })).Outstanding i := by
      rintro ⟨r, hr, hout⟩
      rw [note, List.getElem?_modify_eq] at hr
      obtain ⟨r, _, rfl⟩ := Option.map_eq_some_iff.mp hr
      simp [Request.outstanding] at hout
    simp only [stopServiceDiscovery, if_neg hnot]
  | onStopDiscoveryFailed i =>
    rw [Discovery.step] at hst
    split_ifs at hst with hun
    cases hst
    have hnot : ¬ (s.note i ({ · with stopped := some false })).Outstanding i := by
      rintro ⟨r, hr, hout⟩
      rw [note, List.getElem?_modify_eq] at hr
      obtain ⟨r, hr', rfl⟩ := Option.map_eq_some_iff.mp hr
      rw [Unstopped, hr', Option.map_some, Option.some.injEq, Prod.mk.injEq] at hun
      simp [Request.outstanding, hun.1] at hout
    simp only [stopServiceDiscovery, if_neg hnot]
  | _ => cases hl

/-! ### Whole runs -/

theorem rejected_run {ls : List Label} (h : s.rejected = true)
    (hrun : run Discovery.step ls s = some t) : t.rejected = true := by
  induction ls generalizing s with
  | nil => exact Option.some.inj hrun ▸ h
  | cons l ls ih =>
    obtain ⟨u, hu, hrest⟩ := Option.bind_eq_some_iff.mp hrun
    exact ih (rejected_step h hu) hrest

theorem Truthful.run_iff {ls : List Label} (h : Truthful s)
    (hrun : run Discovery.step ls s = some t) : Truthful t ↔ ∀ l ∈ ls, l.failure = false := by
  induction ls generalizing s with
  | nil => exact iff_of_true (Option.some.inj hrun ▸ h) fun _ hl => absurd hl List.not_mem_nil
  | cons l ls ih =>
    obtain ⟨u, hu, hrest⟩ := Option.bind_eq_some_iff.mp hrun
    rw [List.forall_mem_cons]
    cases hl : l.failure with
    | false => exact (ih (h.step hl hu) hrest).trans ⟨fun hall => ⟨rfl, hall⟩, And.right⟩
    | true =>
      refine iff_of_false (fun ht => ?_) (fun hall => Bool.noConfusion hall.1)
      have hrejected := rejected_run (rejected_of_failure hl hu) hrest
      exact Bool.noConfusion (hrejected.symm.trans ht.accepted)

/-- **The flag tells the truth exactly in the runs in which no failure is reported.** -/
theorem truthful_iff {ls : List Label} (h : run step ls {} = some s) :
    Truthful s ↔ ∀ l ∈ ls, l.failure = false := by
  refine Truthful.run_iff ⟨iff_of_false Bool.false_ne_true ?_, rfl⟩ h
  rintro ⟨_, hnone, _⟩
  cases hnone

/-- A service is found and its socket cannot be opened; the next one can. -/
def retried : List Label :=
  [.connect, .onDiscoveryStarted 0, .onServiceFound true, .onServiceResolved false,
    .onDiscoveryStopped 0, .onDiscoveryStarted 1, .onServiceFound true, .onServiceResolved true]

/-- After that there is no discovery. -/
theorem truthful_retried : ∃ s, run step retried {} = some s ∧ Truthful s := by
  obtain ⟨s, hs⟩ := Option.isSome_iff_exists.mp
    (show (run step retried {}).isSome = true by decide)
  exact ⟨s, hs, (truthful_iff hs).mpr (by decide)⟩

/-- **A discovery that fails to start** is stopped, and the flag stays set. -/
theorem not_truthful : ¬ ∀ (ls : List Label) (s : Discovery), run step ls {} = some s →
    Truthful s := by
  intro hclaim
  have hs := hclaim [.connect, .onStartDiscoveryFailed 0] _ rfl
  obtain ⟨i, hi, r, hr, hout⟩ := hs.flag.mp rfl
  cases hi
  cases hr
  cases hout

end Discovery

end MikaAudio.Client
