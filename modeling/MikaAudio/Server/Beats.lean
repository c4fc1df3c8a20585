import MikaAudio.Lib.Pace
import MikaAudio.Server.Heartbeat

/-!
# The times of the heartbeat

The threads of the heartbeat with the clock they read, and the times at which a byte was written
to a socket.  Two writes to one socket are `INTERVAL_HEARTBEAT` apart in every run in which the
clock does not go back: whoever comes too early to a socket does not write, be it that the loop
dies of it.
-/

namespace MikaAudio.Server

open Interleave (Reach run)
open Pace (Apart)

/-- The heartbeat, the latest reading of `System.currentTimeMillis()`, and the sockets written
to with the times; the program keeps neither of these two. -/
structure Beats where
  heartbeat : Heartbeat := {}
  clock : Int
  written : List (Nat × Int) := []

namespace Beats

/-- What the clock shows at a step. -/
def nowOf (l : Heartbeat.Label) (clock : Int) : Int :=
  match l with
  | .addConnection _ now => now
  | .stop => clock
  | .thread now _ => now

/-- The write a step makes. -/
def writeOf (l : Heartbeat.Label) (s : Heartbeat) : List (Nat × Int) :=
  match l, s.pc with
  | .thread now true, .write i => [(i, now)]
  | _, _ => []

/-- A step of the heartbeat, at a time that is not before the one of the last step. -/
def step (l : Heartbeat.Label) (s : Beats) : Option Beats :=
  if s.clock ≤ nowOf l s.clock then
    (Heartbeat.step l s.heartbeat).map fun heartbeat =>
      { heartbeat := heartbeat
        clock := nowOf l s.clock
        written := s.written ++ writeOf l s.heartbeat }
  else none

/-- The times of the writes to a socket. -/
def times (written : List (Nat × Int)) (i : Nat) : List Int :=
  (written.filter (·.1 = i)).map Prod.snd

/-- Every time is `INTERVAL_HEARTBEAT` before another one. -/
def Before (written : List (Nat × Int)) (i : Nat) (t : Int) : Prop :=
  ∀ a ∈ times written i, a + intervalHeartbeat ≤ t

/-- The writes are apart, and none is less than `INTERVAL_HEARTBEAT` before the time noted for
its socket, unless this is just to be noted anew. -/
structure Paced (s : Beats) : Prop where
  apart : ∀ i, Apart intervalHeartbeat (times s.written i)
  past : ∀ i, ∀ a ∈ times s.written i, a ≤ s.clock
  noted : ∀ i t, s.heartbeat.pc ≠ .put i → s.heartbeat.connections i = some t →
    Before s.written i t
  instant : ∀ i t, s.heartbeat.pc = .instant i t → Before s.written i t
  write : ∀ i, s.heartbeat.pc = .write i → Before s.written i s.clock

variable {s t : Beats} {l : Heartbeat.Label} {i : Nat} {now : Int} {ok : Bool}

theorem Before.mono {written : List (Nat × Int)} {a b : Int} (h : Before written i a)
    (hab : a ≤ b) : Before written i b := fun c hc => Int.le_trans (h c hc) hab

theorem Paced.before_put (h : Paced s) (hnow : s.clock ≤ now) (i : Nat) :
    Before s.written i (now + intervalHeartbeat) := fun a ha => by
  have := h.past i a ha
  omega

/-- A step that writes nothing and notes no time, except one that is late enough. -/
theorem Paced.quiet (h : Paced s) (hnow : s.clock ≤ now) {u : Heartbeat}
    (hnoted : ∀ j t, u.pc ≠ .put j → u.connections j = some t →
      s.heartbeat.pc ≠ .put j ∧ s.heartbeat.connections j = some t ∨ t = now + intervalHeartbeat)
    (hinstant : ∀ j t, u.pc = .instant j t → Before s.written j t)
    (hwrite : ∀ j, u.pc = .write j → Before s.written j now) :
    Paced { heartbeat := u, clock := now, written := s.written } where
  apart := h.apart
  past j a ha := Int.le_trans (h.past j a ha) hnow
  noted j t hpc hconn := by
    rcases hnoted j t hpc hconn with ⟨hpc', hconn'⟩ | rfl
    · exact h.noted j t hpc' hconn'
    · exact h.before_put hnow j
  instant := hinstant
  write := hwrite

theorem Paced.stays (h : Paced s) (hnow : s.clock ≤ now) {u : Heartbeat}
    (hpc : u.pc = s.heartbeat.pc) (hconn : u.connections = s.heartbeat.connections) :
    Paced { heartbeat := u, clock := now, written := s.written } := by
  refine h.quiet hnow (fun j t hput hj => .inl ?_) (fun j t hj => h.instant j t (hpc ▸ hj))
    fun j hj => (h.write j (hpc ▸ hj)).mono hnow
  rw [hpc] at hput
  rw [hconn] at hj
  exact ⟨hput, hj⟩

/-- The loop is not between the reading of a time and the noting of the next one. -/
def untimed : HeartbeatPc → Bool
  | .instant _ _ => false
  | .write _ => false
  | .put _ => false
  | _ => true

theorem Paced.moved (h : Paced s) (hnow : s.clock ≤ now) {u : Heartbeat}
    (hconn : u.connections = s.heartbeat.connections) (hput : ∀ i, s.heartbeat.pc ≠ .put i)
    (huntimed : untimed u.pc = true) :
    Paced { heartbeat := u, clock := now, written := s.written } := by
  refine h.quiet hnow (fun j _ _ hj => .inl ⟨hput j, hconn ▸ hj⟩) (fun j t hpc => ?_)
    fun j hpc => ?_
  · rw [hpc] at huntimed
    cases huntimed
  · rw [hpc] at huntimed
    cases huntimed

theorem times_append (written : List (Nat × Int)) (i j : Nat) (now : Int) :
    times (written ++ [(i, now)]) j =
      if i = j then times written j ++ [now] else times written j := by
  rw [times, List.filter_append]
  split_ifs with hij
  · rw [List.filter_singleton, decide_eq_true hij, cond_true, List.map_append]
    rfl
  · rw [List.filter_singleton, decide_eq_false hij, cond_false, List.append_nil]
    rfl

theorem Paced.written (h : Paced s) (hnow : s.clock ≤ now) (hpc : s.heartbeat.pc = .write i) :
    Paced {
      heartbeat := { s.heartbeat with pc := .put i }
      clock := now
      written := s.written ++ [(i, now)] } := by
  have hbefore : Before s.written i now := (h.write i hpc).mono hnow
  refine ⟨fun j => ?_, fun j a ha => ?_, fun j t hne hconn => ?_, nofun, nofun⟩
  · rw [times_append]
    split_ifs with hij
    · subst hij
      exact (h.apart i).concat hbefore
    · exact h.apart j
  · rw [times_append] at ha
    split_ifs at ha with hij
    · rcases List.mem_append.mp ha with ha | ha
      · exact Int.le_trans (h.past j a ha) hnow
      · exact Int.le_of_eq (List.mem_singleton.mp ha)
    · exact Int.le_trans (h.past j a ha) hnow
  · -- the time of this socket is noted anew by the next step
    have hij : i ≠ j := fun hij => hne (hij ▸ rfl)
    rw [Before, times_append, if_neg hij]
    exact h.noted j t (by rw [hpc]; nofun) hconn

theorem Paced.addStep (h : Paced s) (hnow : s.clock ≤ now) {u : Heartbeat}
    (hst : s.heartbeat.addStep i now = some u) :
    Paced { heartbeat := u, clock := now, written := s.written } := by
  rw [Heartbeat.addStep] at hst
  cases ha : s.heartbeat.adding i with
  | before =>
    rw [ha] at hst
    cases hst
    refine h.quiet hnow (fun j t hpc hconn => ?_) h.instant fun j hpc => (h.write j hpc).mono hnow
    by_cases hji : j = i
    · subst hji
      simp only [Heartbeat.addTo, Heartbeat.put, Function.update_self, Option.some.injEq] at hconn
      exact .inr hconn.symm
    · simp only [Heartbeat.addTo, Heartbeat.put, Function.update_of_ne hji] at hconn
      exact .inl ⟨hpc, hconn⟩
  | noted =>
    rw [ha] at hst
    cases hst
    exact h.stays hnow rfl rfl
  | queued =>
    rw [ha] at hst
    cases hst
    -- the loop is woken up, or goes on where it is
    by_cases hwait : s.heartbeat.pc = .waiting
    · rw [if_pos hwait]
      exact h.moved hnow rfl (fun j heq => by cases hwait.symm.trans heq) rfl
    · rw [if_neg hwait]
      exact h.stays hnow rfl rfl
  | notified =>
    rw [ha] at hst
    cases hst

theorem writeOf_eq_nil {u : Heartbeat} (h : ∀ i, u.pc ≠ .write i) :
    writeOf (.thread now ok) u = [] := by
  unfold writeOf
  split
  · rename_i i _ hpc
    exact absurd hpc (h i)
  · rfl

theorem Paced.threadStep (h : Paced s) (hnow : s.clock ≤ now) {u : Heartbeat}
    (hst : s.heartbeat.threadStep now ok = some u) :
    Paced {
      heartbeat := u
      clock := now
      written := s.written ++ writeOf (.thread now ok) s.heartbeat } := by
  by_cases hwrites : ∃ i, s.heartbeat.pc = .write i
  · obtain ⟨i, hpc⟩ := hwrites
    rw [Heartbeat.threadStep, hpc] at hst
    cases ok with
    | true =>
      obtain rfl := Option.some.inj hst
      have hwrite : writeOf (.thread now true) s.heartbeat = [(i, now)] := by
        simp only [writeOf, hpc]
      exact hwrite ▸ h.written hnow hpc
    | false =>
      obtain rfl := Option.some.inj hst
      have hwrite : writeOf (.thread now false) s.heartbeat = [] := rfl
      rw [hwrite, List.append_nil]
      exact h.moved hnow rfl (fun j heq => by cases hpc.symm.trans heq) rfl
  · rw [writeOf_eq_nil fun i hpc => hwrites ⟨i, hpc⟩, List.append_nil]
    rw [Heartbeat.threadStep] at hst
    cases hpc : s.heartbeat.pc with
    | begin | wait | add i =>
      rw [hpc] at hst
      obtain rfl := Option.some.inj hst
      exact h.moved hnow rfl (fun j heq => by cases hpc.symm.trans heq) rfl
    | test =>
      rw [hpc] at hst
      obtain rfl := Option.some.inj hst
      refine h.moved hnow rfl (fun j heq => by cases hpc.symm.trans heq) ?_
      dsimp only
      split_ifs
      · rfl
      · rfl
    | isEmpty =>
      rw [hpc] at hst
      obtain rfl := Option.some.inj hst
      refine h.moved hnow rfl (fun j heq => by cases hpc.symm.trans heq) ?_
      dsimp only
      split_ifs
      · rfl
      · rfl
    | waiting | ended | dead =>
      rw [hpc] at hst
      cases hst
    | poll =>
      rw [hpc] at hst
      dsimp only at hst
      split at hst
      · obtain rfl := Option.some.inj hst
        exact h.moved hnow rfl (fun j heq => by cases hpc.symm.trans heq) rfl
      · obtain rfl := Option.some.inj hst
        exact h.moved hnow rfl (fun j heq => by cases hpc.symm.trans heq) rfl
    | get i =>
      rw [hpc] at hst
      dsimp only at hst
      split at hst
      · -- the time that is read is the one noted
        rename_i wait hwait
        obtain rfl := Option.some.inj hst
        have hput : ∀ j, s.heartbeat.pc ≠ .put j := fun j heq => by cases hpc.symm.trans heq
        refine h.quiet hnow (fun j _ _ hj => .inl ⟨hput j, hj⟩) (fun j t heq => ?_) fun j heq => ?_
        · cases heq
          exact h.noted i wait (hput i) hwait
        · cases heq
      · obtain rfl := Option.some.inj hst
        exact h.moved hnow rfl (fun j heq => by cases hpc.symm.trans heq) rfl
    | instant i wait =>
      rw [hpc] at hst
      obtain rfl := Option.some.inj hst
      have hput : ∀ j, s.heartbeat.pc ≠ .put j := fun j heq => by cases hpc.symm.trans heq
      refine h.quiet hnow (fun j _ _ hj => .inl ⟨hput j, hj⟩) (fun j t heq => ?_) fun j heq => ?_
      · split_ifs at heq
      · -- the loop is dead, or the time has come
        split_ifs at heq with hearly
        cases heq
        exact (h.instant i wait hpc).mono (by omega)
    | write i => exact absurd ⟨i, hpc⟩ hwrites
    | put i =>
      rw [hpc] at hst
      obtain rfl := Option.some.inj hst
      refine h.quiet hnow (fun j t _ hj => ?_) (fun j t heq => by cases heq)
        fun j heq => by cases heq
      by_cases hji : j = i
      · subst hji
        simp only [Heartbeat.put, Function.update_self, Option.some.injEq] at hj
        exact .inr hj.symm
      · simp only [Heartbeat.put, Function.update_of_ne hji] at hj
        exact .inl ⟨by rw [hpc]; exact fun heq => hji (by cases heq; rfl), hj⟩

/-- The heartbeat has just been made. -/
structure Fresh (s : Beats) : Prop where
  heartbeat : s.heartbeat = {}
  written : s.written = []

theorem Fresh.paced (h : Fresh s) : Paced s := by
  obtain ⟨heartbeat, clock, written⟩ := s
  obtain ⟨rfl, rfl⟩ := h
  exact ⟨fun _ => .nil, nofun, nofun, nofun, nofun⟩

theorem Paced.step (h : Paced s) (hst : step l s = some t) : Paced t := by
  rw [Beats.step] at hst
  split_ifs at hst with hclock
  obtain ⟨u, hu, rfl⟩ := Option.map_eq_some_iff.mp hst
  cases l with
  | addConnection i now =>
    have hnone : writeOf (.addConnection i now) s.heartbeat = [] := rfl
    rw [hnone, List.append_nil]
    exact h.addStep hclock hu
  | stop =>
    have hnone : writeOf .stop s.heartbeat = [] := rfl
    obtain rfl := Option.some.inj hu
    rw [hnone, List.append_nil]
    exact h.stays (Int.le_refl _) rfl rfl
  | thread now ok => exact h.threadStep hclock hu

/-- **The pace of the heartbeat**: in any `n * INTERVAL_HEARTBEAT` milliseconds at most `n` bytes
are written to a socket. -/
theorem heartbeat_pace {s₀ s : Beats} (h₀ : Fresh s₀) (h : Reach step (fun _ _ => True) s₀ s)
    (i : Nat) (a : Int) (n : Nat) :
    ((times s.written i).filter fun t => a ≤ t ∧ t < a + n * intervalHeartbeat).length ≤ n :=
  have hpaced : Paced s := h.invariant h₀.paced fun _ _ _ hp _ hst => hp.step hst
  (hpaced.apart i).window a n

/-- A socket is added, and written to twice. -/
theorem heartbeat_pace_two : ∃ s : Beats, times s.written 7 = [5000, 10000] ∧
    ((times s.written 7).filter fun t => 5000 ≤ t ∧ t < 5000 + (1 : Nat) * intervalHeartbeat).length
      ≤ 1 := by
  obtain ⟨s, hs, hk⟩ := Reach.exists_of_run (show
    (run (fun l s => if True then step l s else none)
      (List.replicate 3 (.addConnection 7 0) ++ Heartbeat.beats 5000 9 ++ Heartbeat.beats 10000 8)
      { clock := 0 }).map (fun s => times s.written 7) = some [5000, 10000] by decide)
  exact ⟨s, hk, heartbeat_pace ⟨rfl, rfl⟩ hs 7 5000 1⟩

end Beats

end MikaAudio.Server
