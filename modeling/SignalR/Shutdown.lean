/-
SignalR/Shutdown.lean

A client can always be shut down, from whatever moment of whatever run.  The monitor
works off its queue (`monitor_rests`); a disconnect runs through its places on its own
steps, since the one answer it waits for may time out (`disconnect_progress`); the event
it leaves behind ends the monitor (`Announced`); and the connections, which nobody can get
hold of any more, drain one after the other (`drain_progress`).

The client is then down: not connected, its monitor returned, every connection without
an owner and without a running task.  It stays down, whatever anybody does to it.
-/
import SignalR.Disconnects
import SignalR.Holdings
import SignalR.Recovery

namespace SignalR

open Transition

variable {V : Type}

/-! ### Places of a disconnect -/

namespace DisconnectPc

/-- `disconnect_gracefully` has returned. -/
def HasReturned : DisconnectPc → Prop
  | .returned _ _ => True
  | _ => False

/-- The steps to the end of a disconnect that nobody answers. -/
def distance : DisconnectPc → Nat
  | .idle => 7
  | .cancelled => 6
  | .flagged => 5
  | .closing _ => 4
  | .awaiting _ | .answered _ _ => 3
  | .closed _ _ => 2
  | .stored _ _ => 1
  | .returned _ _ => 0

end DisconnectPc

namespace Client

variable {C : Config} {s t : Client V} {d : Nat}

/-! ### The end of the monitor -/

/-- A disconnect that has returned has told the monitor to stop. -/
def Announced (s : Client V) : Prop :=
  ∀ d, (s.disconnects d).HasReturned → s.monitor = .stopped ∨ .shutdown ∈ s.events

/-- A step that may report a loss, and brings no disconnect to its end. -/
theorem Announced.of_emits (hi : s.Announced) (hmonitor : t.monitor = s.monitor)
    (hevents : Emits s t)
    (hdisconnects : ∀ d, (t.disconnects d).HasReturned → (s.disconnects d).HasReturned) :
    t.Announced := by
  intro d hd
  refine (hi d (hdisconnects d hd)).imp hmonitor.trans fun hmem => ?_
  rcases hevents with he | ⟨g, reason, he⟩
  · rwa [he]
  · rw [he]
    exact List.mem_append_left _ hmem

theorem Announced.monitor_move (hi : s.Announced) (h : MonitorMove C s t) : t.Announced := by
  have queue : t.events = s.events → s.monitor ≠ .stopped → t.Announced := by
    intro hevents hmonitor d hd
    rw [h.frame.disconnects] at hd
    rw [hevents]
    exact .inr ((hi d hd).resolve_left hmonitor)
  cases h with
  | recv hm he =>
      intro d hd
      have hmem := (hi d hd).resolve_left (by simp [hm])
      rw [he] at hmem
      exact .inr ((List.mem_cons.mp hmem).resolve_left (by simp))
  | recvShutdown | leave => exact fun _ _ => .inl rfl
  | startCycle hm =>
      refine queue rfl fun hstop => ?_
      simp [hstop] at hm
  | interrupt hm | retry hm | finish hm =>
      refine queue rfl fun hstop => ?_
      simp [hstop] at hm
  | _ => exact queue rfl (by simp [*])

/-- The last step of a disconnect sends the event. -/
theorem Announced.disconnect_move (hi : s.Announced) (h : DisconnectMove s d t) :
    t.Announced := by
  -- the disconnect is not at its end
  have goto : ∀ {u : Client V} {pc : DisconnectPc}, ¬ pc.HasReturned → u.monitor = s.monitor →
      u.events = s.events → u.disconnects = s.disconnects → (u.setDisconnect d pc).Announced := by
    intro u pc hpc hmonitor hevents hdisconnects d' hd'
    by_cases hd : d' = d
    · subst hd
      rw [setDisconnect_self] at hd'
      exact absurd hd' hpc
    · have hother : (u.setDisconnect d pc).disconnects d' = s.disconnects d' := by
        simp [setDisconnect, hd, hdisconnects]
      rw [hother] at hd'
      exact (hi d' hd').imp hmonitor.trans fun hmem => hevents ▸ hmem
  cases h with
  | sendShutdown =>
      intro d' _
      show s.monitor = .stopped ∨ .shutdown ∈ (s.emit .shutdown).events
      by_cases hm : s.monitor = .stopped
      · exact .inl hm
      · simp [emit, hm]
  | _ => exact goto id rfl rfl rfl

theorem Announced.step {l : Label V} (hi : s.Announced) (h : Client.step C s l = some t) :
    t.Announced := by
  cases l with
  | call c l =>
      have hf := (callStep_frame h).1
      refine hi.of_emits (monitor_of_control hf.control) hf.events fun d hd => ?_
      rwa [hf.disconnects] at hd
  | connection g l =>
      have hf := connectionStep_frame h
      refine hi.of_emits (monitor_of_control hf.control) hf.events fun d hd => ?_
      rcases hf.disconnects d with hd' | ⟨g', r, -, hd'⟩
      · rwa [hd'] at hd
      · rw [hd'] at hd
        exact hd.elim
  | monitor l => exact hi.monitor_move (monitorStep_move h)
  | disconnect d l => exact hi.disconnect_move (disconnectStep_move h)
  | user l =>
      obtain rfl := Option.some.inj h
      obtain ⟨hcontrol, -, -, hevents, hdisconnects⟩ := userStep_frame C s l
      refine hi.of_emits (monitor_of_control hcontrol) (.inl hevents) fun d hd => ?_
      rwa [hdisconnects] at hd

theorem Reachable.announced {allowed : Client V → Label V → Prop} (h : Reachable C allowed s) :
    s.Announced :=
  h.invariant (fun _ hd => hd.elim) fun _ _ _ hi _ hst => hi.step hst

/-! ### The end of a disconnect -/

/-- **A disconnect is never stuck**: from every place but the last it has a step of its
own that takes it closer to its end. -/
theorem disconnect_progress (C : Config) (s : Client V) (hd : ¬ (s.disconnects d).HasReturned) :
    ∃ l t, step C s (.disconnect d l) = some t ∧
      (t.disconnects d).distance < (s.disconnects d).distance := by
  -- a step to a place further on
  have hto : ∀ (l : DisconnectLabel) {u : Client V} {pc : DisconnectPc},
      s.disconnectStep d l = some (u.setDisconnect d pc) →
      pc.distance < (s.disconnects d).distance → ∃ l t, step C s (.disconnect d l) = some t ∧
        (t.disconnects d).distance < (s.disconnects d).distance := by
    intro l u pc hst hlt
    refine ⟨l, _, hst, ?_⟩
    rwa [setDisconnect_self]
  cases hpc : s.disconnects d with
  | idle =>
      refine hpc ▸ hto .cancel (by simp only [disconnectStep, hpc]; rfl) ?_
      simp [hpc, DisconnectPc.distance]
  | cancelled =>
      refine hpc ▸ hto .raiseFlag (by simp only [disconnectStep, hpc]; rfl) ?_
      simp [hpc, DisconnectPc.distance]
  | flagged =>
      cases hstate : s.state with
      | connected g =>
          refine hpc ▸ hto .lookup (by simp only [disconnectStep, hpc, hstate]; rfl) ?_
          simp [hpc, DisconnectPc.distance]
      | notConnected =>
          refine hpc ▸ hto .lookup (by simp only [disconnectStep, hpc, hstate]; rfl) ?_
          simp [hpc, DisconnectPc.distance]
      | reconnecting =>
          refine hpc ▸ hto .lookup (by simp only [disconnectStep, hpc, hstate]; rfl) ?_
          simp [hpc, DisconnectPc.distance]
  | closing g =>
      by_cases hwriter : (s.connections g).writer = .running
      · refine hpc ▸ hto .requestClose
          (by simp only [disconnectStep, hpc, if_pos hwriter]; rfl) ?_
        simp [hpc, DisconnectPc.distance]
      · refine hpc ▸ hto .requestClose
          (by simp only [disconnectStep, hpc, if_neg hwriter]; rfl) ?_
        simp [hpc, DisconnectPc.distance]
  | awaiting g =>
      -- the time for the answer is limited
      refine hpc ▸ hto .timeout (by simp only [disconnectStep, hpc]; rfl) ?_
      simp [hpc, DisconnectPc.distance]
  | answered g result =>
      refine hpc ▸ hto .finishClose (by simp only [disconnectStep, hpc]; rfl) ?_
      simp [hpc, DisconnectPc.distance]
  | closed g result =>
      refine hpc ▸ hto .store (by simp only [disconnectStep, hpc]; rfl) ?_
      simp [hpc, DisconnectPc.distance]
  | stored g result =>
      refine hpc ▸ hto .sendShutdown (by simp only [disconnectStep, hpc]; rfl) ?_
      simp [hpc, DisconnectPc.distance]
  | returned g result =>
      rw [hpc] at hd
      exact absurd trivial hd

/-- A disconnect that has returned takes no further step. -/
theorem hasReturned_step {l : Label V} (h : step C s l = some t)
    (hd : (s.disconnects d).HasReturned) : (t.disconnects d).HasReturned := by
  rcases step_disconnect h d with ht | ⟨g, r, hs, -⟩ | ⟨l', rfl⟩
  · rwa [ht]
  · rw [hs] at hd
    exact hd.elim
  · cases hpc : s.disconnects d with
    | returned g r => cases l' <;> simp [step, disconnectStep, hpc] at h
    | _ =>
        rw [hpc] at hd
        exact hd.elim

/-! ### Down for good -/

/-- The monitor has returned, and of the connections nothing is left. -/
structure Down (s : Client V) : Prop where
  state : s.state = .notConnected
  monitor : s.monitor = .stopped
  freed : ∀ g, s.Freed g

/-- The monitor has returned, and left no connection behind. -/
def Retired (s : Client V) : Prop :=
  s.state = .notConnected ∧ s.monitor = .stopped

/-- Nobody but the monitor stores a connection. -/
theorem Retired.step {l : Label V} (hi : s.Retired) (h : Client.step C s l = some t) :
    t.Retired := by
  obtain ⟨hstate, hmonitor⟩ := hi
  rcases step_control h with hcontrol | hmove | ⟨d, hmove⟩
  · exact ⟨(state_of_control hcontrol).trans hstate, (monitor_of_control hcontrol).trans hmonitor⟩
  · cases hmove with
    | startCycle hm | interrupt hm | retry hm | finish hm => simp [hmonitor] at hm
    | _ => simp_all
  · refine ⟨?_, hmove.frame.monitor.trans hmonitor⟩
    cases hmove with
    | store => rfl
    | _ => exact hstate

/-- The tasks of a freed connection take no step. -/
theorem Freed.connectionStep {g : Nat} (hi : s.Freed g) (l : ConnectionLabel) :
    s.connectionStep C g l = none := by
  cases l with
  | readFrame frame => exact if_neg (hi.reader [])
  | readError error => exact if_neg (hi.reader [])
  | dispatch =>
      simp only [Client.connectionStep]
      split
      · rename_i hreader
        exact absurd hreader (hi.reader _)
      · rfl
  | write result => exact if_neg hi.writer
  | writeFails reason => exact if_neg hi.writer
  | abortReader => exact if_neg fun h => hi.reader [] h.1
  | abortWriter => exact if_neg fun h => hi.writer h.1

/-- Once the monitor has returned, a freed connection stays freed. -/
theorem Freed.step {l : Label V} {g : Nat} (hi : s.Freed g) (hs : Reachable C free s)
    (hretired : s.Retired) (h : Client.step C s l = some t) : t.Freed g := by
  have hcreates : ¬ s.Creates t g := by
    rintro ⟨⟨attempt, hm⟩, -⟩
    simp [hretired.2] at hm
  have hholders := (step_moves hs.known hs.control_inv h).free (i := g) hi.holders hcreates
  rcases step_tasks h g with ⟨hreader, hwriter⟩ | ⟨hc, -⟩ | ⟨l', rfl⟩
  · refine ⟨hholders, ?_, ?_⟩
    · rw [hreader]
      exact hi.reader
    · rw [hwriter]
      exact hi.writer
  · exact absurd hc hcreates
  · rw [Client.step, hi.connectionStep] at h
    simp at h

/-- A connection that was never set up. -/
theorem freed_of_latest_lt {g : Nat} (hs : Reachable C free s) (hretired : s.Retired)
    (hg : latest s.trace < g) : s.Freed g := by
  have hlater : ¬ (g ≤ latest s.trace ∨ s.monitor = .installing g) := by
    rintro (hle | hm)
    · exact Nat.not_le_of_lt hg hle
    · simp [hretired.2] at hm
  have hstarted := fun h => hlater (hs.spared.started g h)
  refine ⟨?_, fun todo hreader => hstarted ?_, fun hwriter => hstarted ?_⟩
  · rcases hheld : (s.connections g).holders with - | ⟨x, l⟩
    · rfl
    · have hx : x ∈ (s.connections g).holders := by simp [hheld]
      exact absurd (hs.known.known x g ((hs.known.balanced.mem g x).mp hx)) hlater
  · simp [hreader]
  · simp [hwriter]

theorem Down.step {l : Label V} (hi : s.Down) (hs : Reachable C free s)
    (h : Client.step C s l = some t) : t.Down := by
  have ht := Retired.step ⟨hi.state, hi.monitor⟩ h
  exact ⟨ht.1, ht.2, fun g => (hi.freed g).step hs ⟨hi.state, hi.monitor⟩ h⟩

/-- **Down is for good.** -/
theorem Down.forever (hi : s.Down) (hs : Reachable C free s)
    (h : Reaches (Client.step C) free s t) :
    t.Down :=
  h.induction hi fun _ _ _ hu hd _ hst => hd.step (hs.trans hu) hst

/-- A step that lets some connection drain. -/
def Drains (s : Client V) (l : Label V) : Prop :=
  ∃ g, s.Winds g l

/-- **The connections drain one after the other.** -/
theorem drains_below (hs : Reachable C free s) (hretired : s.Retired) (n : Nat) :
    ∃ t, Reaches (step C) Drains s t ∧ t.control = s.control ∧ ∀ g < n, t.Freed g := by
  induction n with
  | zero => exact ⟨s, .refl s, rfl, fun g hg => absurd hg (Nat.not_lt_zero g)⟩
  | succ n ih =>
      obtain ⟨t, hst, hcontrol, hbelow⟩ := ih
      -- while connection `n` drains, those below stay drained
      have hdrain : ∀ u : Client V,
          (Reachable C free u ∧ u.control = s.control ∧ ∀ g < n, u.Freed g) → ¬ u.Freed n →
            ∃ v, Reaches (step C) Drains u v ∧
              (Reachable C free v ∧ v.control = s.control ∧ ∀ g < n, v.Freed g) ∧
                v.busy n < u.busy n := by
        rintro u ⟨hu, hucontrol, hfreed⟩ hn
        have hur : u.Retired := ⟨(state_of_control hucontrol).trans hretired.1,
          (monitor_of_control hucontrol).trans hretired.2⟩
        obtain ⟨v, huv, hvcontrol, hlt⟩ :=
          drain_progress hu (by simp [hur.1]) (by simp [hur.2]) hn
        have hfree : Reaches (step C) free u v := huv.mono fun _ _ _ => trivial
        refine ⟨v, huv.mono fun _ _ h => ⟨n, h⟩, ⟨hu.trans hfree, ?_, fun g hg => ?_⟩, hlt⟩
        · exact hvcontrol.trans hucontrol
        · refine (hfree.induction (I := fun v => v.Retired ∧ v.Freed g) ⟨hur, hfreed g hg⟩ ?_).2
          rintro w l x hw ⟨hr, hf⟩ - hst
          exact ⟨hr.step hst, hf.step (hu.trans hw) hr hst⟩
      obtain ⟨v, htv, ⟨-, hvcontrol, hfreed⟩, hn⟩ := Reaches.variant (busy · n) hdrain
        ⟨hs.trans (hst.mono fun _ _ _ => trivial), hcontrol, hbelow⟩
      refine ⟨v, hst.trans htv, hvcontrol, fun g hg => ?_⟩
      rcases Nat.lt_succ_iff_lt_or_eq.mp hg with hlt | rfl
      · exact hfreed g hlt
      · exact hn

/-! ### The shutdown -/

/-- No report waits for the monitor. -/
def Rested (s : Client V) : Prop :=
  s.monitor = .stopped ∨ s.monitor = .idle ∧ ∀ e ∈ s.events, e = .shutdown

/-- A disconnect reports nothing but its own end. -/
theorem Rested.disconnect_move (hi : s.Rested) (h : DisconnectMove s d t) : t.Rested := by
  refine hi.imp h.frame.monitor.trans fun ⟨hm, hevents⟩ => ⟨h.frame.monitor.trans hm, ?_⟩
  cases h with
  | sendShutdown =>
      intro e he
      rw [show (_ : Client V).events = s.events ++ [.shutdown] by simp [setDisconnect, emit, hm]]
        at he
      rcases List.mem_append.mp he with he | he
      · exact hevents e he
      · exact List.mem_singleton.mp he
  | _ => exact hevents

/-- After a disconnect has stored `NotConnected`, its own steps leave it so. -/
theorem DisconnectMove.notConnected (h : DisconnectMove s d t)
    (hs : (s.disconnects d).HasStored → s.state = .notConnected)
    (hd : (t.disconnects d).HasStored) : t.state = .notConnected := by
  cases h with
  | store => rfl
  | sendShutdown hpc => exact hs (hpc ▸ trivial)
  | finishClose =>
      rw [Client.finishClose, setDisconnect_self] at hd
      exact hd.elim
  | _ =>
      rw [setDisconnect_self] at hd
      exact hd.elim

/-- **A disconnect returns**, by its own steps, and leaves the client unconnected. -/
theorem disconnect_returns (C : Config) (hd : ¬ (s.disconnects d).HasStored) (hrested : s.Rested) :
    ∃ t, Reaches (step C) (fun _ l => ∃ l', l = .disconnect d l') s t ∧
      (t.disconnects d).HasReturned ∧ t.state = .notConnected ∧ t.Rested := by
  have hprogress : ∀ u : Client V,
      (((u.disconnects d).HasStored → u.state = .notConnected) ∧ u.Rested) →
        ¬ (u.disconnects d).HasReturned →
          ∃ v, Reaches (step C) (fun _ l => ∃ l', l = .disconnect d l') u v ∧
            (((v.disconnects d).HasStored → v.state = .notConnected) ∧ v.Rested) ∧
              (v.disconnects d).distance < (u.disconnects d).distance := by
    rintro u ⟨hstate, hrested⟩ hnot
    obtain ⟨l, v, hst, hlt⟩ := disconnect_progress C u hnot
    have hmove := disconnectStep_move hst
    exact ⟨v, .head _ ⟨l, rfl⟩ hst (.refl v),
      ⟨hmove.notConnected hstate, hrested.disconnect_move hmove⟩, hlt⟩
  obtain ⟨t, hst, ⟨hstate, hrested⟩, hreturned⟩ :=
    Reaches.variant (fun u : Client V => (u.disconnects d).distance) hprogress
      ⟨fun h => absurd h hd, hrested⟩
  refine ⟨t, hst, hreturned, hstate ?_, hrested⟩
  cases hpc : t.disconnects d with
  | returned => trivial
  | _ =>
      rw [hpc] at hreturned
      exact hreturned.elim

/-- The monitor takes the event of a disconnect that has returned. -/
theorem monitor_stops (hs : Reachable C free s) (hd : (s.disconnects d).HasReturned)
    (hrested : s.Rested) :
    ∃ t, Reaches (step C) Unaided s t ∧ t.monitor = .stopped ∧ t.state = s.state ∧
      t.disconnects = s.disconnects := by
  rcases hrested with hm | ⟨hm, hevents⟩
  · exact ⟨s, .refl s, hm, rfl, rfl⟩
  · have hmem := (hs.announced d hd).resolve_left (by simp [hm])
    cases he : s.events with
    | nil => simp [he] at hmem
    | cons e events =>
        obtain rfl := hevents e (he ▸ List.mem_cons_self)
        have hst : s.monitorStep C .recv = some { s with events, monitor := .stopped } := by
          simp [monitorStep, hm, he]
        exact ⟨_, .head (.monitor .recv) trivial hst (.refl _), rfl, rfl, rfl⟩

/-- A step of a shutdown: one of disconnect `d`, one of the monitor, or one by which a
connection drains. -/
def ShutsDown (d : Nat) (s : Client V) (l : Label V) : Prop :=
  (∃ l', l = .disconnect d l') ∨ Unaided s l ∨ Drains s l

/-- **A client can always be shut down.**  From every reachable state in which no handler
awaits a call, a disconnect that has yet to store `NotConnected` can return and the client
go down with it, by steps of this disconnect, the monitor, and the parties and tasks that
let go of their connections.  The client is down for good then. -/
theorem can_shut_down (h : Reachable C free s) (hfree : s.monitor.Free)
    (hd : ¬ (s.disconnects d).HasStored) :
    ∃ t, Reaches (step C) (ShutsDown d) s t ∧ (t.disconnects d).HasReturned ∧
      ∀ u, Reaches (step C) free t u → u.Down := by
  -- first the monitor works off the reports, whatever they lead to
  have hkeep : ∀ {u v : Client V} {l}, u.disconnects = s.disconnects → Unaided u (.monitor l) →
      u.monitorStep C l = some v → v.disconnects = s.disconnects := by
    intro u v l hu _ hst
    exact (monitorStep_move hst).frame.disconnects.trans hu
  obtain ⟨u₁, hsu₁, hdisconnects, hdone⟩ := monitor_rests hkeep rfl hfree
  have hu₁ : Reachable C free u₁ := h.trans (hsu₁.mono fun _ _ _ => trivial)
  have hrested : u₁.Rested := by
    rcases hdone with ⟨hm, hevents⟩ | hm
    · exact .inr ⟨hm, by simp [hevents]⟩
    · exact .inl hm
  -- then the disconnect runs to its end, and the monitor takes its event
  obtain ⟨u₂, hu₁u₂, hreturned, hstate, hrested⟩ :=
    disconnect_returns C (by rwa [hdisconnects]) hrested
  have hu₂ : Reachable C free u₂ := hu₁.trans (hu₁u₂.mono fun _ _ _ => trivial)
  obtain ⟨u₃, hu₂u₃, hm, hstate', hdisconnects'⟩ := monitor_stops hu₂ hreturned hrested
  have hu₃ : Reachable C free u₃ := hu₂.trans (hu₂u₃.mono fun _ _ _ => trivial)
  have hretired : u₃.Retired := ⟨hstate'.trans hstate, hm⟩
  -- last the connections drain, those that were ever set up
  obtain ⟨t, hu₃t, hcontrol, hbelow⟩ := drains_below hu₃ hretired (latest u₃.trace + 1)
  have ht : Reachable C free t := hu₃.trans (hu₃t.mono fun _ _ _ => trivial)
  have hretired' : t.Retired := ⟨(state_of_control hcontrol).trans hretired.1,
    (monitor_of_control hcontrol).trans hretired.2⟩
  have hdown : t.Down := by
    refine ⟨hretired'.1, hretired'.2, fun g => ?_⟩
    by_cases hg : g < latest u₃.trace + 1
    · exact hbelow g hg
    · refine freed_of_latest_lt ht hretired' ?_
      rw [trace_of_control hcontrol]
      exact Nat.lt_of_succ_le (Nat.le_of_not_lt hg)
  refine ⟨t, ?_, ?_, fun u htu => hdown.forever ht htu⟩
  · refine (hsu₁.mono fun _ _ h => .inr (.inl h)).trans ?_
    refine (hu₁u₂.mono fun _ _ h => .inl h).trans ?_
    refine (hu₂u₃.mono fun _ _ h => .inr (.inl h)).trans ?_
    exact hu₃t.mono fun _ _ h => .inr (.inr h)
  · refine (hu₃t.mono fun _ _ _ => trivial : Reaches (step C) free u₃ t).invariant
      (I := fun u => (u.disconnects d).HasReturned) ?_ fun _ _ _ hi _ hst => hasReturned_step hst hi
    rwa [hdisconnects']

/-- In the middle of a reconnect, while a call still has the lost connection. -/
theorem can_shut_down_reconnecting :
    ∃ s : Client Int, s.monitor = .sleeping 1 ∧ (s.connections 1).holders = [.call 0] ∧
      ∃ t, Reaches (step sample) (ShutsDown 0) s t ∧ (t.disconnects 0).HasReturned ∧
        ∀ u, Reaches (step sample) free t u → u.Down := by
  have hrun : Reachable sample free (V := Int) _ := Reaches.of_exec
    [.call 0 .send, .call 0 .lookup, .connection 1 (.readError "reset"), .monitor .recv,
      .monitor .loadShutdown, .monitor .mark, .monitor .cancel, .monitor .startReconnecting,
      .monitor .checkTop] rfl
  exact ⟨_, rfl, rfl, can_shut_down hrun trivial id⟩

end Client

end SignalR
