import Patchbay.Proofs.Clock.Advance

namespace Patchbay

open Act

variable {s t u : Studio} {c context : ContextId} {k : InstrumentId}

def SameEnds (s t : Studio) : Prop := ∀ c host, t.hasEnded c host = s.hasEnded c host

instance : IsPreorder Studio SameEnds where
  refl _ _ _ := rfl
  trans _ _ _ h h' c host := (h' c host).trans (h c host)

instance : Stages SameEnds where
  backstage _ _ h := h.ended

theorem sameEnds_change (f : Instrument → Instrument) : Keeps SameEnds (changeInstrument k f) :=
  keeps_modify fun _ _ _ => rfl

theorem sameEnds_emitAt (depth : Nat) (event : Event) :
    Keeps SameEnds (Instrument.emitAt depth k event) :=
  Instrument.apart_emitAt sameEnds_change (fun _ _ => keeps_modify fun _ _ _ => rfl) depth event

theorem sameEnds_notify (depth : Nat) (watcher : Watcher) :
    Keeps SameEnds (notify (Instrument.emitAt depth) watcher) :=
  stages_notify (fun _ => Instrument.apart_remove sameEnds_change (sameEnds_emitAt depth)) watcher

theorem sameEnds_start (play : Play) (time delay duration : Option Float) :
    Along SameEnds (discard (Instrument.start k play time delay duration)) s fun _ _ => True := by
  have hstarts := Instrument.apart_startWith sameEnds_change (sameEnds_emitAt s.credit) play time delay
    duration (k := k) s
  exact along_map (along_emitter hstarts) fun _ _ _ => trivial

theorem Command.sameEnds {command : Command} (hclock : command.clock? s = none) :
    ∀ act, command.act? s = some act → Along SameEnds act s fun _ _ => True := by
  intro act hact
  cases command.staged act hact with
  | backstage h => exact stages_of_keeps h s
  | @add _ make hmake =>
      have hmade : Along SameEnds make s fun _ _ => True :=
        Ends.mono hmake (fun _ _ h => ⟨h.1.ended, trivial⟩) fun _ _ h => h.ended
      refine along_bind hmade fun inst t _ _ => ?_
      have hadd : Along SameEnds inst.add t fun _ _ => True := by
        unfold Along Instrument.add
        rw [ends_modifyGet]
        exact ⟨fun _ _ => rfl, trivial⟩
      exact along_map hadd fun _ _ h => h
  | play k id time delay duration => exact sameEnds_start _ time delay duration
  | playValue k x time delay duration => exact sameEnds_start _ time delay duration
  | track k id =>
      refine along_emitter (keeps_map _ ?_ s)
      exact Instrument.apart_track sameEnds_change (sameEnds_emitAt _) _
  | stopVoices k ids time delay =>
      exact Instrument.stages_stop (fun _ => sameEnds_change _) ids time delay s
  | observe k topic observer => exact sameEnds_change _ s
  | advanceTo context time => cases hclock
  | advanceBy context seconds => cases hclock

-- A source as it was when the clock brought about its end.
structure Finish where
  context : ContextId
  host : HostId
  node : HostNode

def Finish.source (finish : Finish) : ContextId × HostId := (finish.context, finish.host)

-- What a round ends, in order.
def Studio.finishing (s : Studio) (context : ContextId) : List Finish :=
  (s.engine context).endDue.1.filterMap fun ending =>
    ((s.engine context).nodes[ending.host]?).map fun node => ⟨context, ending.host, node⟩

theorem Studio.mem_finishing {finish : Finish} : finish ∈ s.finishing context ↔
    finish.context = context ∧ (s.engine context).nodes[finish.host]? = some finish.node ∧
      ∃ time, finish.node.due (s.engine context).now = some time := by
  simp only [finishing, List.mem_filterMap, Option.map_eq_some_iff]
  constructor
  · rintro ⟨ending, hending, node, hnode, rfl⟩
    obtain ⟨_, hsame, hdue, -⟩ := Engine.mem_endDue.1 hending
    obtain rfl := Option.some_inj.1 (hnode.symm.trans hsame)
    exact ⟨rfl, hnode, ending.time, hdue⟩
  · rintro ⟨rfl, hnode, time, hdue⟩
    exact ⟨⟨time, finish.host, finish.node.watchers⟩, Engine.mem_endDue.2 ⟨_, hnode, hdue, rfl⟩, _,
      hnode, rfl⟩

-- A round ends what is due, and nothing else.
theorem Engine.hasEnded_endDue {engine : Engine} (host : HostId) :
    engine.endDue.2.hasEnded host = true ↔
      engine.hasEnded host = true ∨ host ∈ engine.endDue.1.map Ending.host := by
  rw [hasEnded, getElem?_endDue, hasEnded]
  cases hnode : engine.nodes[host]? with
  | none =>
      have hquiet : host ∉ engine.endDue.1.map Ending.host := by
        simp [mem_hosts_endDue, hnode]
      simp [hquiet]
  | some node =>
      by_cases hdue : host ∈ engine.endDue.1.map Ending.host <;> simp [hdue]

theorem Studio.source_finishing (s : Studio) (context : ContextId) :
    (s.finishing context).map Finish.source = (s.dueHosts context).map (context, ·) := by
  rw [finishing, List.map_filterMap, dueHosts, List.map_map, ← List.filterMap_eq_map]
  refine List.filterMap_congr fun ending hending => ?_
  obtain ⟨node, hnode, -⟩ := Engine.mem_endDue.1 hending
  rw [hnode]
  rfl

-- What has ended afterwards had ended before, or is among these. These are all different sources, each
-- started and not ended before.
structure Finishes (ends : List Finish) (s t : Studio) : Prop where
  ended : ∀ c host, t.hasEnded c host = true ↔
    s.hasEnded c host = true ∨ (c, host) ∈ ends.map Finish.source
  distinct : (ends.map Finish.source).Nodup
  fresh : ∀ finish ∈ ends, s.hasEnded finish.context finish.host = false
  started : ∀ finish ∈ ends, finish.node.isSource = true ∧ finish.node.startedAt.isSome = true

namespace Finishes

variable {ends more : List Finish}

theorem of_same (h : SameEnds s t) : Finishes [] s t where
  ended c host := by simp [h c host]
  distinct := List.nodup_nil
  fresh _ h := absurd h List.not_mem_nil
  started _ h := absurd h List.not_mem_nil

theorem trans (h : Finishes ends s t) (h' : Finishes more t u) : Finishes (ends ++ more) s u where
  ended c host := by rw [h'.ended, h.ended, List.map_append, List.mem_append, or_assoc]
  distinct := by
    rw [List.map_append, List.nodup_append]
    refine ⟨h.distinct, h'.distinct, fun source hends other hmore heq => ?_⟩
    obtain ⟨finish, hfinish, rfl⟩ := List.mem_map.1 hmore
    subst heq
    have hended := (h.ended finish.context finish.host).2 (.inr hends)
    rw [h'.fresh finish hfinish] at hended
    cases hended
  fresh := by
    refine List.forall_mem_append.2 ⟨h.fresh, fun finish hfinish => ?_⟩
    by_contra hended
    have hlater := (h.ended finish.context finish.host).2 (.inl (Bool.not_eq_false _ ▸ hended))
    rw [h'.fresh finish hfinish] at hlater
    cases hlater
  started := List.forall_mem_append.2 ⟨h.started, h'.started⟩

theorem of_round (hopen : context < s.engines.size) :
    Finishes (s.finishing context) s (s.round context) where
  ended c host := by
    rw [s.source_finishing, Studio.hasEnded]
    by_cases hc : context = c
    · subst hc
      rw [Studio.engine_round hopen, Engine.hasEnded_endDue]
      simp [Studio.dueHosts, Studio.hasEnded]
    · rw [Studio.round, s.engine_setEngine, if_neg fun h => hc h.1]
      simp [hc, Studio.hasEnded]
  distinct := by
    rw [s.source_finishing]
    rw [List.Nodup, List.pairwise_map]
    exact (s.nodup_dueHosts context).imp fun hne h => hne (Prod.mk.inj h).2
  fresh finish hfinish := by
    obtain ⟨rfl, hnode, time, hdue⟩ := Studio.mem_finishing.1 hfinish
    rw [Studio.hasEnded, Engine.hasEnded, hnode]
    exact Engine.live_of_due hdue
  started finish hfinish := by
    obtain ⟨-, -, time, hdue⟩ := Studio.mem_finishing.1 hfinish
    obtain ⟨hsource, -, hend, -⟩ := HostNode.due_eq_some.1 hdue
    obtain ⟨start, hstart, -⟩ := HostNode.limit_of_endTime hend
    exact ⟨hsource, by rw [hstart]; rfl⟩

end Finishes

theorem Studio.hasEnded_new (rate : Float) (c : ContextId) (host : HostId) :
    (Studio.new rate).hasEnded c host = false := by
  have hnodes : ((Studio.new rate).engine c).nodes = #[.ofKind none] := by
    cases c <;> rfl
  rw [hasEnded, Engine.hasEnded, hnodes]
  cases host <;> rfl

-- Round after round, until nothing is due.
def Act.finishes (emit : Instrument.Emit) (context : ContextId) : Nat → Studio → List Finish
  | 0, _ => []
  | rounds + 1, s =>
    if (s.engine context).endDue.1 = [] then []
    else s.finishing context ++ finishes emit context rounds
      (((s.callBacks context).forM (notify emit)).after (s.round context))

def Command.finishes (s : Studio) (command : Command) : List Finish :=
  (command.clock? s).elim [] fun (context, time) =>
    let moved := s.advanced context time
    Act.finishes (Instrument.emitAt s.credit) context (moved.roundsAhead + 2) moved

def Session.finishes (session : Session) : List Command → List Finish
  | [] => []
  | command :: rest => command.finishes session.studio ++ (session.perform command).finishes rest

theorem finishes_settle (depth : Nat) (context : ContextId) (rounds : Nat) :
    Finishes (Act.finishes (Instrument.emitAt depth) context rounds s) s
      ((settle (Instrument.emitAt depth) context rounds).after s) := by
  induction rounds generalizing s with
  | zero => exact .of_same (refl s)
  | succ rounds ih =>
      rw [Act.finishes]
      by_cases hdue : (s.engine context).endDue.1 = []
      · rw [if_pos hdue, after_of_ok (settle_quiet hdue rounds)]
        exact .of_same (refl s)
      · have hopen : context < s.engines.size := by
          obtain ⟨ending, hending⟩ := List.exists_mem_of_ne_nil _ hdue
          exact Studio.opened_of_due (List.mem_map_of_mem hending)
        have hcalls : Keeps SameEnds ((s.callBacks context).forM (notify (Instrument.emitAt depth))) :=
          keeps_forM fun watcher _ => sameEnds_notify depth watcher
        obtain ⟨⟨⟩, t, hrun, hsame, -⟩ := exists_of_ends
          ((unfailing_forM (unfailing_notify depth) _).ends (hcalls (s.round context)))
        rw [if_neg hdue, after_congr ((settle_due hdue rounds).trans (run_bind hrun)), after_of_ok hrun]
        exact (Finishes.of_round hopen).trans ((Finishes.of_same hsame).trans ih)

theorem finishes_advanceTo (context : ContextId) (time : Float) :
    Finishes ((Command.advanceTo context time).finishes s) s ((advanceTo context time).after s) := by
  let moved := s.advanced context time
  have hmoved : Backstage s moved := .of_engine context (.of_eq rfl)
  have hsettled : (advanceTo context time).after s =
      (settle (Instrument.emitAt s.credit) context (moved.roundsAhead + 2)).after moved :=
    after_congr rfl
  rw [hsettled]
  exact (Finishes.of_same hmoved.ended).trans (finishes_settle _ _ (moved.roundsAhead + 2))

namespace Session

variable {session : Session}

theorem finishes_perform (command : Command) : Finishes (command.finishes session.studio)
    session.studio (session.perform command).studio := by
  cases hclock : command.clock? session.studio with
  | some moved =>
      cases command with
      | advanceTo context time =>
          rw [studio_perform rfl]
          exact finishes_advanceTo context time
      | advanceBy context seconds =>
          have hmoved : (advanceBy context seconds).after session.studio =
              (advanceTo context (session.studio.now context + seconds)).after session.studio :=
            after_congr rfl
          rw [studio_perform rfl, hmoved]
          exact finishes_advanceTo context _
      | _ => cases hclock
  | none =>
      rw [Command.finishes, hclock, perform]
      refine .of_same ?_
      split
      case h_1 act hact =>
          refine after_of_ends (Ends.mono (Command.sameEnds hclock act hact) ?_ ?_)
          · exact fun _ _ h => h.1
          · exact fun _ _ h => h
      case h_2 => exact refl _

theorem finishes_foldl (session : Session) (commands : List Command) :
    Finishes (session.finishes commands) session.studio (commands.foldl perform session).studio := by
  induction commands generalizing session with
  | nil => exact .of_same (refl _)
  | cons command rest ih => exact (finishes_perform command).trans (ih _)

-- When the clock of a host reaches a time and the callbacks leave the host alone, just those sources
-- end that are due by then, and each callback runs once, in the order of the ends. In the course of a
-- session whatever ends was started and ends once.
theorem ends_what_is_due :
    (∀ (s : Studio) (context : ContextId) (time : Float), context < s.engines.size →
      s.Undisturbed context time →
      ∃ ends t, advanceTo context time s = .ok () t ∧
        (s.engine context).Reaches time ends (t.engine context) ∧
        (ends.flatMap Engine.Ending.watchers).forM (notify (Instrument.emitAt s.credit))
          { s with engines := s.engines.modify context fun _ => t.engine context } = .ok () t) ∧
    ∀ (rate : Float) (commands : List Command),
      (((new rate).finishes commands).map Finish.source).Nodup ∧
      (∀ finish ∈ (new rate).finishes commands,
        finish.node.isSource = true ∧ finish.node.startedAt.isSome = true) ∧
      ∀ c host, (run rate commands).studio.hasEnded c host = true ↔
        (c, host) ∈ ((new rate).finishes commands).map Finish.source := by
  refine ⟨fun s context time hopen hcalm => ?_, fun rate commands => ?_⟩
  · obtain ⟨t, hact, hengine, hcalls⟩ := run_advanceTo hopen time hcalm
    rw [← hengine] at hcalls
    exact ⟨_, t, hact, hengine ▸ (s.engine context).reaches time, hcalls⟩
  · have h := finishes_foldl (new rate) commands
    refine ⟨h.distinct, h.started, fun c host => (h.ended c host).trans (or_iff_right ?_)⟩
    exact Bool.eq_false_iff.1 (Studio.hasEnded_new rate c host)

-- A tone that stops early, and two that stop at one time.
def tones : List Command := [
  .create 0 (.oscillator .sine), .create 0 .constantSource, .create 0 (.oscillator .square),
  .watch 0 1 "first", .watch 0 2 "second", .watch 0 2 "third", .watch 0 3 "fourth",
  .request 0 (.start 1 0), .request 0 (.start 2 0), .request 0 (.start 3 0),
  .request 0 (.stop 1 0.5), .request 0 (.stop 2 1), .request 0 (.stop 3 1)]

theorem tones_end : (run 44100 tones).studio.Undisturbed 0 1 ∧
    ((run 44100 tones).studio.advanced 0 1).callBacks 0 =
      [.tag "first", .tag "second", .tag "third", .tag "fourth"] ∧
    ∃ ends t, advanceTo 0 1 (run 44100 tones).studio = .ok () t ∧
      ((run 44100 tones).studio.engine 0).Reaches 1 ends (t.engine 0) := by
  have hcalm : (run 44100 tones).studio.Undisturbed 0 1 :=
    Studio.undisturbed_of_tags 1 (by decide +kernel) (by decide +kernel)
  have hsorted : (((run 44100 tones).studio.advanced 0 1).engine 0).endDue.1 =
      (((run 44100 tones).studio.advanced 0 1).engine 0).endings :=
    List.mergeSort_of_pairwise (by decide +kernel)
  obtain ⟨ends, t, hact, hreaches, -⟩ := ends_what_is_due.1 _ 0 1 (by decide +kernel) hcalm
  refine ⟨hcalm, ?_, ends, t, hact, hreaches⟩
  rw [Studio.callBacks, hsorted]
  decide +kernel

end Session

end Patchbay
