import Patchbay.Proofs.Lifetime.Times
import Patchbay.Proofs.Float.Sums

namespace Patchbay

open Act

namespace Time

theorem le_resolve {time delay : Option Float} {now : Float} (hnow : 0 ≤ now)
    (hdelay : 0 ≤ given delay) : now ≤ resolve time delay now := by
  have hlater := now_le_later (given time) (number_of_le hnow)
  exact le_trans hlater (le_add_of_nonneg (le_trans hnow hlater) hdelay)

theorem given_le_resolve (time delay : Option Float) (now : Float) (htime : 0 ≤ given time)
    (hdelay : 0 ≤ given delay) : given time ≤ resolve time delay now := by
  have hlater : given time ≤ later now (given time) := le_later now (le_self (number_of_le htime))
  exact le_trans hlater (le_add_of_nonneg (le_trans htime hlater) hdelay)

end Time

theorem Contour.duration_nonneg (contour : Contour) :
    ∀ stage ∈ contour.stages, 0 ≤ stage.duration := by
  intro stage hstage
  have hsound := List.all_eq_true.1 contour.sound stage hstage
  unfold Stage.fault at hsound
  split at hsound
  case isTrue => cases hsound
  case isFalse =>
      split at hsound
      case isTrue => cases hsound
      case isFalse hduration =>
          simp only [Bool.or_eq_true, Bool.not_eq_true', decide_eq_true_eq, not_or,
            Bool.not_eq_false] at hduration
          exact Time.le_of_not_lt (Time.number_of_finite hduration.1) rfl hduration.2

-- It is not before `now`; a start or a stop only if that is promised.
def HostCall.Timely (promise : Prop) (now : Float) : HostCall → Prop
  | .start _ time | .stop _ time => promise → now ≤ time
  | .schedule _ _ event => now ≤ event.time
  | .create _ _ | .connect _ _ | .disconnect _ | .setParam _ _ _ | .setBuffer _ => True

theorem HostCall.Timely.weaken {p q : Prop} {now : Float} {call : HostCall} (h : call.Timely p now)
    (hpq : q → p) : call.Timely q now := by
  cases call <;> first | trivial | exact fun hq => h (hpq hq)

theorem HostCall.timely_of_untimed {promise : Prop} {now : Float} {call : HostCall}
    (h : call.time? = none) : call.Timely promise now := by
  cases call <;> trivial

-- All clocks show the same.
structure Studio.AllAt (s : Studio) (now : Float) : Prop where
  valid : 0 ≤ now
  clocks : ∀ c < s.engines.size, s.now c = now

theorem Studio.AllAt.before {s t : Studio} {now : Float} (h : t.AllAt now) (hst : Enduring s t) :
    s.AllAt now :=
  ⟨h.valid, fun c hc => hst.clocks c ▸ h.clocks c (Nat.lt_of_lt_of_le hc hst.contexts)⟩

-- Clocks stand still, and what hosts have been told to do is in time.
structure Timely (promise : Prop) (now : Float) (s t : Studio) : Prop extends Enduring s t where
  calls : s.Metered → ∀ c, ∃ calls, (t.engine c).calls.toList = (s.engine c).calls.toList ++ calls ∧
    ∀ call ∈ calls, call.Timely (promise ∧ t.AllAt now) (s.now c)

-- A time at which nodes may be started and stopped.
def Studio.Admits (promise : Prop) (now : Float) (s : Studio) (time : Float) : Prop :=
  promise → s.AllAt now → time.isFinite = true → now ≤ time

theorem Studio.Admits.after {promise : Prop} {now : Float} {s : Studio} {time length : Float}
    (h : s.Admits promise now time) (hlength : 0 ≤ length) : s.Admits promise now (time + length) := by
  intro hpromise hs hfinite
  have hnow := h hpromise hs (Time.isFinite_of_add hfinite)
  exact Time.le_trans hnow (Time.le_add_of_nonneg (Time.le_trans hs.valid hnow) hlength)

namespace Timely

variable {promise : Prop} {now : Float} {s t : Studio}

instance : IsPreorder Studio (Timely promise now) where
  refl s := ⟨refl_of Enduring s, fun _ _ => ⟨[], by simp, by simp⟩⟩
  trans s t u h h' := by
    refine ⟨trans_of Enduring h.toEnduring h'.toEnduring, fun hs c => ?_⟩
    obtain ⟨calls, hcalls, htimely⟩ := h.calls hs c
    obtain ⟨more, hmore, htimely'⟩ := h'.calls (h.metered hs) c
    refine ⟨calls ++ more, by rw [hmore, hcalls, List.append_assoc], fun call hcall => ?_⟩
    rcases List.mem_append.1 hcall with hcall | hcall
    · exact (htimely call hcall).weaken fun hu => ⟨hu.1, hu.2.before h'.toEnduring⟩
    · exact h.clocks c ▸ htimely' call hcall

theorem of_untimed (s t : Studio) (h : Untimed s t) : Timely promise now s t := by
  refine ⟨h.toEnduring, fun _ c => ?_⟩
  obtain ⟨calls, hcalls, huntimed⟩ := h.calls c
  exact ⟨calls, hcalls, fun call hcall => HostCall.timely_of_untimed (huntimed call hcall)⟩

instance : Drafts (Timely promise now) := .of_finer of_untimed

instance : Connects (Timely promise now) := .of_finer of_untimed

-- A host that is there takes a request.
theorem along_request (context : ContextId) (request : Request)
    (h : s.Metered → context < s.engines.size →
      request.call.Timely (promise ∧ s.AllAt now) (s.now context)) :
    Along (Timely promise now) (Act.host context request.send) s fun _ _ => True := by
  refine along_host fun engine hsend => ⟨?_, trivial⟩
  have hstill : Enduring s { s with engines := s.engines.modify context fun _ => engine } :=
    .of_engine context (Request.now_send hsend)
  refine ⟨hstill, fun hs c => ?_⟩
  rw [s.engine_setEngine]
  split
  case isTrue hc =>
      obtain ⟨rfl, hc⟩ := hc
      refine ⟨[request.call], by rw [Request.calls_send hsend, Array.toList_push], ?_⟩
      simpa using (h hs hc).weaken fun ht => ⟨ht.1, ht.2.before hstill⟩
  case isFalse => exact ⟨[], by simp, by simp⟩

theorem along_scheduleStages (context : ContextId) (host : HostId) (param : Param)
    {stages : List Stage} (hstages : ∀ stage ∈ stages, 0 ≤ stage.duration) {time : Float}
    (htime : 0 ≤ s.now context → s.now context ≤ time) :
    Along (Timely promise now) (Contour.scheduleStages context host param time stages) s
      fun _ _ => True := by
  induction stages generalizing s time with
  | nil => exact along_pure trivial
  | cons stage rest ih =>
      have hnext (hs : 0 ≤ s.now context) : s.now context ≤ time + stage.duration := by
        have hlater := Time.le_trans hs (htime hs)
        exact Time.le_trans (htime hs)
          (Time.le_add_of_nonneg hlater (hstages stage List.mem_cons_self))
      refine along_bind (along_request context (.schedule host param _)
        fun hs _ => hnext (hs.clocks context)) fun _ t hst _ => ?_
      refine ih (fun other hother => hstages other (List.mem_cons_of_mem _ hother)) ?_
      rw [hst.clocks]
      exact hnext

instance : Times (Timely promise now) (Studio.Admits promise now) Node.Lasts where
  started id := keeps_modify fun s => of_untimed s _ (.of_change id fun _ => rfl)
  curve contour context host param time s := by
    refine along_now (along_scheduleStages context host param contour.duration_nonneg fun hs => ?_)
    exact Time.le_resolve hs (Time.le_self rfl)
  start s context host time hfinite htime :=
    along_request context (.start host time) fun _ hc hall =>
      hall.2.clocks context hc ▸ htime hall.1 hall.2 hfinite
  stop s node host time _ _ _ hfinite htime :=
    along_request node.context (.stop host time) fun _ hc hall =>
      hall.2.clocks node.context hc ▸ htime hall.1 hall.2 hfinite
  lasting s t time hst htime hpromise ht := htime hpromise (ht.before hst.toEnduring)
  after s node time hlasts htime := hlasts.after fun length hlength => htime.after hlength

-- Only from a studio that is as it should be does anything follow.
theorem along_metered {act : Act Unit} (hstill : Keeps Enduring act)
    (h : s.Metered → Along (Timely promise now) act s fun _ _ => True) :
    Along (Timely promise now) act s fun _ _ => True := by
  by_cases hs : s.Metered
  · exact h hs
  · have hvoid (t : Studio) (ht : Enduring s t) : Timely promise now s t :=
      ⟨ht, fun hmetered => absurd hmetered hs⟩
    exact Ends.mono (hstill s) (fun _ t ht => ⟨hvoid t ht.1, trivial⟩) fun _ t ht => hvoid t ht

instance : Paces (Timely promise now) (Studio.Admits promise now) where
  __ := (inferInstance : Drafts (Timely promise now))
  __ := (inferInstance : Connects (Timely promise now))
  untouched s t h := of_untimed s t (.of_untouched h)
  openContext s rate _ := along_openContext (of_untimed s _ (.of_opened s rate))
  curve := Times.curve
  start s node time hs hnode htime := along_metered (node.keeps_start time) fun hmetered =>
    Node.timed_start (fun _ hinner => hmetered.lasts (hs.knows_of_reach hnode hinner)) htime
  stop s node time hs hnode htime := along_metered (node.keeps_stop time) fun hmetered =>
    Node.timed_stop (fun _ hinner => hmetered.lasts (hs.knows_of_reach hnode hinner)) htime
  disconnect s node _ _ := (Untimed.keeps_disconnect node).mono of_untimed s
  lasting := Times.lasting
  present s c hc := by
    refine ⟨fun _ hs _ => ?_, fun _ hs _ => ?_⟩ <;> rw [hs.clocks c hc]
    · exact Time.le_self (Time.number_of_le hs.valid)
    · exact Time.le_resolve hs.valid (Time.le_self rfl)
  after s time length htime hlength := htime.after (Time.le_of_lt hlength)

end Timely

-- A host is told directly what to do, or made to forget what it was told.
def Command.bypasses : Command → Bool
  | .request _ _ | .clearCalls _ => true
  | _ => false

-- The time that it gives, once it is resolved, is not in the past. For voices, no delay or one that is
-- not negative is enough.
def Command.Prompt (now : Float) : Command → Prop
  | .start _ time | .stop _ time => time.isFinite = true → now ≤ time
  | .play _ _ time delay _ | .playValue _ _ time delay _ | .stopVoices _ _ time delay =>
    0 ≤ Time.given delay ∨
      ((Time.resolve time delay now).isFinite = true → now ≤ Time.resolve time delay now)
  | _ => True

theorem Command.Prompt.paced {promise : Prop} {now : Float} {command : Command}
    (h : promise → command.Prompt now) (s : Studio) :
    command.Paced (Timely promise now) (Studio.Admits promise now) s := by
  have hresolved {time delay : Option Float} (h : promise → 0 ≤ Time.given delay ∨
      ((Time.resolve time delay now).isFinite = true → now ≤ Time.resolve time delay now)) :
      Punctual (Timely promise now) (Studio.Admits promise now) s time delay := by
    intro t _ c hc hpromise ht hfinite
    rw [ht.clocks c hc] at hfinite ⊢
    rcases h hpromise with hdelay | htime
    · exact Time.le_resolve ht.valid hdelay
    · exact htime hfinite
  cases command with
  | start | stop => exact fun hpromise _ => h hpromise
  | play | playValue | stopVoices => exact hresolved h
  | _ => trivial

-- Where the clock of a context is to move on, it has.
def Command.present (s : Studio) (command : Command) : Studio :=
  (command.clock? s).elim s fun (context, time) => s.advanced context time

theorem Command.present_spec {s : Studio} (hs : s.Metered) (command : Command) :
    (command.present s).Metered ∧
      (∀ c, ((command.present s).engine c).calls = (s.engine c).calls) ∧
      ∀ c, s.now c ≤ (command.present s).now c := by
  have hnumber (c : ContextId) : (s.now c).isNaN = false := Time.number_of_le (hs.clocks c)
  unfold present
  cases command.clock? s with
  | none => exact ⟨hs, fun _ => rfl, fun c => Time.le_self (hnumber c)⟩
  | some moved =>
      obtain ⟨context, time⟩ := moved
      refine ⟨hs.advance context time, fun c => ?_, fun c => ?_⟩
      · change ((s.advanced context time).engine c).calls = _
        rw [Studio.advanced, s.engine_setEngine]
        split
        case isTrue hc => rw [← hc.1, Engine.advance]
        case isFalse => rfl
      · change _ ≤ ((s.advanced context time).engine c).now
        rw [Studio.advanced, s.engine_setEngine]
        split
        case isTrue hc => exact hc.1 ▸ Time.now_le_later time (hnumber context)
        case isFalse => exact Time.le_self (hnumber c)

section Commands

variable {promise : Prop} {now : Float} {s : Studio} {command : Command}

-- What a host is told by way of the library, whatever tells it curves.
theorem Command.keeps_untimed {R : Studio → Studio → Prop} [Connects R]
    (huntimed : ∀ s t, Untimed s t → R s t)
    (hcurve : ∀ (contour : Contour) context host param time,
      Keeps R (contour.schedule context host param time))
    (hdirect : command.isDirect = true) (hbypass : command.bypasses = false) :
    ∀ act, command.act? s = some act → Keeps R act := by
  cases command with
  | create context kind =>
      exact forall_given fun _ _ =>
        forall_some (keeps_map _ ((Creates.created context kind).mono huntimed))
  | silence context host =>
      exact forall_given fun _ _ => forall_some ((Untimed.keeps_cutHost context host).mono huntimed)
  | watch context host tag =>
      exact forall_some ((Creates.watched context host (.tag tag)).mono huntimed)
  | plug context host param value =>
      exact forall_given fun drive _ => forall_some (keeps_map _ (Drive.keeps_plug _ _ _ drive))
  | schedule contour context host param time =>
      exact forall_some (hcurve contour context host param time)
  | request | clearCalls => cases hbypass
  | _ => cases hdirect

theorem timely_advanceTo (context : ContextId) (time : Float) (hs : s.ledger.Sound 0) :
    Ends (Act.advanceTo context time) s (fun _ t => Timely promise now (s.advanced context time) t)
      fun _ t => Timely promise now (s.advanced context time) t := by
  have hquiet : (s.advanced context time).ledger = s.ledger := s.ledger_setEngine_eq context rfl
  have hsound : (s.advanced context time).ledger.Sound 0 := hquiet ▸ hs
  have hsettle := performs_settle (R := Timely promise now)
    (performs_emitAt (s.advanced context time).credit) context
    ((s.advanced context time).roundsAhead + 2) (s.advanced context time)
  unfold advanceTo engine setEngine Instrument.emitter
  simp only [ends_bind, ends_get, ends_pure, ends_modify]
  exact Ends.mono hsettle (fun _ _ ht => (ht.1 hsound).2.2) fun _ _ ht => (ht hsound).2.2

theorem Command.timely (hs : s.ledger.Sound 0) (hbypass : command.bypasses = false)
    (hprompt : promise → command.Prompt now) : ∀ act, command.act? s = some act →
      Ends act s (fun _ t => Timely promise now (command.present s) t)
        fun _ t => Timely promise now (command.present s) t := by
  have hstill (hclock : command.clock? s = none) {act : Act Unit}
      (hact : Along (Timely promise now) act s fun _ _ => True) :
      Ends act s (fun _ t => Timely promise now (command.present s) t)
        fun _ t => Timely promise now (command.present s) t := by
    rw [present, hclock]
    exact Ends.mono hact (fun _ _ ht => ht.1) fun _ _ ht => ht
  cases hdirect : command.isDirect with
  | true =>
      have hclock : command.clock? s = none := by cases command <;> first | rfl | cases hdirect
      refine fun act hact => hstill hclock ?_
      exact Command.keeps_untimed Timely.of_untimed Times.curve hdirect hbypass act hact s
  | false =>
      cases hclock : command.clock? s with
      | none =>
          refine fun act hact => hstill hclock (Command.paces hs hdirect (Prompt.paced hprompt s)
            (fun b _ patch => ?_) (fun c time h => ?_) act hact)
          · exact (Assembles.built b patch).mono Timely.of_untimed
          · rw [hclock] at h
            cases h
      | some moved =>
          obtain ⟨context, time⟩ := moved
          have hpresent : command.present s = s.advanced context time := by
            rw [present, hclock]
            rfl
          rw [hpresent]
          cases command with
          | advanceTo context' time' =>
              obtain ⟨rfl, rfl⟩ := Prod.mk.inj (Option.some_inj.1 hclock)
              exact forall_some (timely_advanceTo _ _ hs)
          | advanceBy context' seconds =>
              obtain ⟨rfl, rfl⟩ := Prod.mk.inj (Option.some_inj.1 hclock)
              refine forall_some ?_
              unfold Act.advanceBy Act.now
              simp only [ends_bind, ends_get, ends_pure]
              exact timely_advanceTo _ _ hs
          | _ => cases hclock

end Commands

namespace Session

-- Clocks do not go back, and nothing is in the past of the only one. Whatever a node or an instrument
-- does, none of the curves that it has the host follow bends before the time on the clock; and if the
-- caller does not ask for the past, no start and no stop is before that time.
theorem nothing_in_the_past (rate : Float) (commands : List Command) (command : Command)
    (hbypass : command.bypasses = false)
    (hone : (run rate (commands ++ [command])).studio.engines.size = 1) :
    (run rate commands).studio.now 0 ≤ (run rate (commands ++ [command])).studio.now 0 ∧
      ∃ calls, ((run rate (commands ++ [command])).studio.engine 0).calls.toList =
          ((run rate commands).studio.engine 0).calls.toList ++ calls ∧
        ∀ call ∈ calls,
          call.Timely (command.Prompt ((run rate (commands ++ [command])).studio.now 0))
            ((run rate (commands ++ [command])).studio.now 0) := by
  have hs : (run rate commands).studio.ledger.Sound 0 := (lawful_run rate commands).sound
  have hbefore := metered_run rate commands
  have hafter := metered_run rate (commands ++ [command])
  rw [run_concat] at hone hafter ⊢
  cases hact : command.act? (run rate commands).studio with
  | none =>
      rw [perform, hact]
      exact ⟨Time.le_self (Time.number_of_le (hbefore.clocks 0)), [], by simp, by simp⟩
  | some act =>
      rw [studio_perform hact] at hone hafter ⊢
      generalize (run rate commands).studio = s at *
      have hall : (act.after s).AllAt ((act.after s).now 0) := by
        refine ⟨hafter.clocks 0, fun c hc => ?_⟩
        rw [hone, Nat.lt_one_iff] at hc
        rw [hc]
      obtain ⟨hpresent, hcalls, hnow⟩ := Command.present_spec hbefore command
      have htimely : Timely (command.Prompt ((act.after s).now 0)) ((act.after s).now 0)
          (command.present s) (act.after s) :=
        after_of_ends (Command.timely hs hbypass id act hact)
      refine ⟨htimely.clocks 0 ▸ hnow 0, ?_⟩
      obtain ⟨calls, hlog, hcall⟩ := htimely.calls hpresent 0
      rw [hcalls] at hlog
      refine ⟨calls, hlog, fun call hmem => ?_⟩
      have hcall := (hcall call hmem).weaken fun hprompt => ⟨hprompt, hall⟩
      rwa [← htimely.clocks 0] at hcall

-- A second has gone by, and the tone has not been started yet.
def waiting : List Command := [
  .make 0 (.oscillator .sine (.fixed 440) none),
  .advanceBy 0 1]

theorem tone_starts_in_time :
    (run 44100 (waiting ++ [.start 0 2])).studio.engines.size = 1 ∧
    (Command.start 0 2).Prompt ((run 44100 (waiting ++ [.start 0 2])).studio.now 0) ∧
    ∃ calls, ((run 44100 (waiting ++ [.start 0 2])).studio.engine 0).calls.toList =
        ((run 44100 waiting).studio.engine 0).calls.toList ++ calls ∧ calls.length = 1 ∧
      ∀ call ∈ calls, call.Timely True ((run 44100 (waiting ++ [.start 0 2])).studio.now 0) := by
  have hone : (run 44100 (waiting ++ [.start 0 2])).studio.engines.size = 1 := by decide +kernel
  have hprompt : (Command.start 0 2).Prompt ((run 44100 (waiting ++ [.start 0 2])).studio.now 0) := by
    have htime : (run 44100 (waiting ++ [.start 0 2])).studio.now 0 ≤ 2 := by decide +kernel
    exact fun _ => htime
  obtain ⟨-, calls, hlog, hcalls⟩ := nothing_in_the_past 44100 waiting (.start 0 2) rfl hone
  have hlength : ((run 44100 (waiting ++ [.start 0 2])).studio.engine 0).calls.toList.length =
      ((run 44100 waiting).studio.engine 0).calls.toList.length + 1 := by
    decide +kernel
  rw [hlog, List.length_append, Nat.add_left_cancel_iff] at hlength
  exact ⟨hone, hprompt, calls, hlog, hlength, fun call hcall =>
    (hcalls call hcall).weaken fun _ => hprompt⟩

-- The host is told to start the tone a second ago.
theorem tone_starts_in_the_past : (Command.start 0 0).bypasses = false ∧
    (run 44100 (waiting ++ [.start 0 0])).studio.engines.size = 1 ∧
    ((run 44100 waiting).studio.engine 0).starts.isEmpty = true ∧
    ∃ start ∈ ((run 44100 (waiting ++ [.start 0 0])).studio.engine 0).starts,
      ¬(run 44100 (waiting ++ [.start 0 0])).studio.now 0 ≤ start.2 := by
  decide +kernel

end Session

end Patchbay
