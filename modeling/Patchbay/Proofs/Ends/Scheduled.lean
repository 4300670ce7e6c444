import Patchbay.Proofs.Ends.NodeEnd
import Patchbay.Proofs.Float.Order
import Patchbay.Proofs.Lifetime.Scheduling
import Patchbay.Proofs.Voices.Exact

namespace Patchbay

namespace HostNode

variable {node : HostNode}

theorem isSome_endTime (hstarts : node.startedAt.isSome = true) (hstops : node.stopAt.isSome = true) :
    node.endTime.isSome = true := by
  obtain ⟨start, hstart⟩ := Option.isSome_iff_exists.1 hstarts
  obtain ⟨stop, hstop⟩ := Option.isSome_iff_exists.1 hstops
  rw [endTime, hstart, hstop]
  cases node.kind.bind NodeKind.naturalLength <;> rfl

theorem due_eq {now time : Float} (hsource : node.isSource = true) (hlive : node.ended = false)
    (htime : node.endTime = some time) (hnow : time ≤ now) : node.due now = some time := by
  simp [due, hsource, hlive, htime, hnow]

end HostNode

theorem Studio.hostTimed_iff {s : Studio} (c : ContextId) (h : HostId) :
    s.ledger.HostTimed c h ↔ ∃ node, (s.engine c).nodes[h]? = some node ∧
      node.startedAt.isSome = true ∧ node.stopAt.isSome = true := by
  rw [Ledger.HostTimed, s.any_host rfl, Option.any_eq_true]
  simp [HostNode.fate]

-- A source that the clock has passed has ended, or is to end now.
theorem Studio.ended_or_due {s : Studio} {c : ContextId} {h : HostId} {time : Float}
    (htimed : s.ledger.HostTimed c h)
    (hsource : ∃ fate kind, s.ledger.host c h = some fate ∧ fate.kind = some kind ∧
      kind.isSource = true)
    (hpast : ∀ node last, (s.engine c).nodes[h]? = some node → node.endTime = some last →
      last ≤ time) :
    s.ledger.HostEnded c h ∨ h ∈ (s.advanced c time).dueHosts c := by
  obtain ⟨node, hnode, hstarts, hstops⟩ := (hostTimed_iff c h).1 htimed
  obtain ⟨last, hlast⟩ := Option.isSome_iff_exists.1 (HostNode.isSome_endTime hstarts hstops)
  by_cases hended : node.ended = true
  · refine .inl ((hostEnded_iff c h).2 ?_)
    rw [hnode]
    exact hended
  · obtain ⟨fate, kind, hfate, hkind, hsource⟩ := hsource
    have hc : c < s.engines.size := by
      by_contra hc
      simp [ledger, Array.getElem?_eq_none (Nat.not_lt.1 hc)] at hfate
    rw [s.host_eq hc, Engine.hosts, hnode] at hfate
    obtain rfl : node.fate = fate := Option.some_inj.1 hfate
    have hkind : node.kind = some kind := hkind
    have hnow : last ≤ Time.later (s.engine c).now time := Time.le_later _ (hpast node last hnode hlast)
    refine .inr (mem_dueHosts.2 ⟨node, last, ?_, ?_⟩)
    · simpa [advanced, engine, Array.getElem?_modify, Array.getElem?_eq_getElem hc, Engine.advance]
        using hnode
    · refine HostNode.due_eq ?_ (Bool.eq_false_iff.2 hended) hlast ?_
      · rw [HostNode.isSource, hkind]
        exact hsource
      · simpa [advanced, engine, Array.getElem?_modify, Array.getElem?_eq_getElem hc, Engine.advance]
          using hnow

-- The sources that it reaches have been started, and are to stop.
def Node.Scheduled (node : Node) (studio : Studio) : Prop :=
  ∀ leaf ∈ node.reach, ∀ host, leaf.source? = some host →
    ∃ source, (studio.engine leaf.context).nodes[host]? = some source ∧
      source.startedAt.isSome = true ∧ source.stopAt.isSome = true

theorem Node.scheduled_iff {node : Node} {s : Studio} : node.Scheduled s ↔ node.Timed s.ledger := by
  simp only [Scheduled, Timed, Studio.hostTimed_iff]

theorem Studio.node?_eq (s : Studio) (id : NodeId) : s.node? id = (s.ledger.fate id).node := by
  simp only [node?, ledger]
  cases s.nodes[id]? <;> rfl

-- The time that a command moves the clock of a context to.
def Command.clock? (studio : Studio) : Command → Option (ContextId × Float)
  | .advanceTo context time => some (context, time)
  | .advanceBy context seconds => some (context, studio.now context + seconds)
  | _ => none

-- The commands start a node. It has a length, or is stopped right away.
inductive Sounds (s : Studio) (id : NodeId) (node : Node) : List Command → Prop
  | lasting {t : Studio} (time : Float) (hlength : node.duration.isSome = true)
      (hstart : node.start time s = .ok () t) : Sounds s id node [.start id time]
  | stopped {t u : Studio} (time time' : Float) (hstart : node.start time s = .ok () t)
      (hstop : node.stop time' t = .ok () u) : Sounds s id node [.start id time, .stop id time']

namespace Session

variable {session : Session}

-- With all the sources that it reaches a node ends, if it ends at all.
theorem ended_of_sources (h : session.moment.Lawful) {node : Node}
    (hnode : session.studio.ledger.Knows node) (hemits : node.emitsEnded = true)
    (hsources : ∀ leaf ∈ node.reach, ∀ host, leaf.source? = some host →
      session.studio.ledger.HostEnded leaf.context host) :
    (node.state session.studio).ended = true := by
  induction node using Node.induct with
  | step node ih =>
      have hjoined := joined_of_lawful h hnode
      by_cases hwhole : node.IsWhole
      · refine (hjoined.whole hwhole).2 ⟨hemits, fun member hmember hends => ?_⟩
        have hpart := node.members_subset_parts hmember
        refine ih member hpart ?_ hends fun leaf hleaf => hsources leaf ?_
        · exact h.sound.knows_of_reach hnode (Node.part_mem_reach hpart)
        · exact Node.reach_trans hleaf (Node.part_mem_reach hpart)
      · cases hsource : node.source? with
        | some host =>
            refine (hjoined.source host hsource).2 ((Studio.hostEnded_iff _ _).1 ?_)
            exact hsources node (Node.self_mem_reach node) host hsource
        | none => exact absurd ((hjoined.still hwhole hsource).1.symm.trans hemits) Bool.false_ne_true

theorem hostEnded_perform (h : session.moment.Lawful) {command : Command} {c : ContextId}
    {time : Float} (hclock : command.clock? session.studio = some (c, time)) {host : HostId}
    (hdue : host ∈ (session.studio.advanced c time).dueHosts c) :
    (session.perform command).studio.ledger.HostEnded c host := by
  have hends : Act.Ends (Act.advanceTo c time) session.studio
      (fun _ t => t.ledger.HostEnded c host) fun _ t => t.ledger.HostEnded c host :=
    (ends_advanceTo c time h.sound).mono (fun _ _ ht => ht.2 host hdue) fun _ _ h => h.elim
  cases command with
  | advanceTo context time' =>
      cases hclock
      rw [studio_perform rfl]
      exact Act.after_of_ends hends
  | advanceBy context seconds =>
      cases hclock
      rw [studio_perform rfl]
      apply Act.after_of_ends (P := fun t => t.ledger.HostEnded c host)
      unfold Act.advanceBy Act.now
      simp only [Act.ends_bind, Act.ends_get, Act.ends_pure]
      exact hends
  | _ => cases hclock

-- One of the commands moves the clock past the time at which the source is to end.
def Passes (rate : Float) (commands more : List Command) (c : ContextId) (host : HostId) : Prop :=
  ∃ before command after time, more = before ++ command :: after ∧
    command.clock? (run rate (commands ++ before)).studio = some (c, time) ∧
    ∀ source last, ((run rate (commands ++ before)).studio.engine c).nodes[host]? = some source →
      source.endTime = some last → last ≤ time

theorem hostEnded_of_passes {rate : Float} {commands more : List Command} {leaf : Node}
    (hleaf : (run rate commands).studio.ledger.Knows leaf) {host : HostId}
    (hsource : leaf.source? = some host)
    (htimed : (run rate commands).studio.ledger.HostTimed leaf.context host)
    (hpasses : Passes rate commands more leaf.context host) :
    (run rate (commands ++ more)).studio.ledger.HostEnded leaf.context host := by
  obtain ⟨before, command, after, time, rfl, hclock, hpast⟩ := hpasses
  have hlawful := lawful_run rate (commands ++ before)
  have hgrows := (moves_run rate commands before).grows
  have hformed := hlawful.sound.formed (hleaf.grow hgrows)
  have hended : (run rate (commands ++ before ++ [command])).studio.ledger.HostEnded
      leaf.context host := by
    rcases Studio.ended_or_due (htimed.grow hgrows) (hformed.source host hsource) hpast with
      hended | hdue
    · exact hended.grow (moves_run rate (commands ++ before) [command]).grows
    · rw [run_concat]
      exact hostEnded_perform hlawful hclock hdue
  have hsplit : commands ++ (before ++ command :: after) = commands ++ before ++ [command] ++ after := by
    simp
  rw [hsplit]
  exact hended.grow (moves_run rate (commands ++ before ++ [command]) after).grows

theorem run_ok {rate : Float} {commands : List Command} {command : Command} {act : Act Unit}
    {t : Studio} (hact : command.act? (run rate commands).studio = some act)
    (hok : act (run rate commands).studio = .ok () t) :
    (run rate (commands ++ [command])).studio = t := by
  rw [run_concat, studio_perform hact, Act.after, hok]

theorem timed_of_sounds {rate : Float} {commands playing : List Command} {id : NodeId} {node : Node}
    (hnode : (run rate commands).studio.node? id = some node)
    (hconnected : ∀ inner ∈ node.reach,
      (inner.state (run rate commands).studio).disconnected = false)
    (hplaying : Sounds (run rate commands).studio id node playing) :
    node.Timed (run rate (commands ++ playing)).studio.ledger := by
  have hs := (lawful_run rate commands).sound
  have hknown := (Studio.offers_of_node hs hnode).1.known
  have hreach (inner : Node) (hinner : inner ∈ node.reach) :
      (run rate commands).studio.ledger.Knows inner := hs.knows_of_reach hknown hinner
  have hcut (inner : Node) (hinner : inner ∈ node.reach) :
      ((run rate commands).studio.ledger.fate inner.id).cut = false := by
    rw [← inner.state_disconnected]
    exact hconnected inner hinner
  cases hplaying with
  | lasting time hlength hstart =>
      rw [run_ok (by simp [Command.act?, hnode]) hstart]
      exact (Act.ends_of_ok hstart (Node.along_start hreach hcut)).2.2 hlength
  | @stopped t u time time' hstart hstop =>
      obtain ⟨hst, hmarked, -⟩ := Act.ends_of_ok hstart (Node.along_start hreach hcut)
      have hrun : (run rate (commands ++ [.start id time])).studio = t :=
        run_ok (by simp [Command.act?, hnode]) hstart
      have hnode' : t.node? id = some node := by
        rw [Studio.node?_eq] at hnode ⊢
        exact (hst.grows.fate id).node node hnode
      rw [show [Command.start id time, .stop id time'] = [.start id time] ++ [.stop id time'] from rfl,
        ← List.append_assoc, run_ok (by simp [Command.act?, hrun, hnode']) (hrun.symm ▸ hstop)]
      exact (Act.ends_of_ok hstop (Node.along_stop hmarked)).2

-- What sounds comes to its end. All the sources of a node that has been started, and stopped unless
-- it has a length, are to stop. When the clock has passed each of their ends, whatever else happens,
-- the node has ended and is registered nowhere.
theorem none_stuck (rate : Float) (commands playing : List Command) (id : NodeId) (node : Node)
    (hnode : (run rate commands).studio.node? id = some node) (hemits : node.emitsEnded = true)
    (hconnected : ∀ inner ∈ node.reach,
      (inner.state (run rate commands).studio).disconnected = false)
    (hplaying : Sounds (run rate commands).studio id node playing) :
    node.Scheduled (run rate (commands ++ playing)).studio ∧
      ∀ more, (∀ leaf ∈ node.reach, ∀ host, leaf.source? = some host →
          Passes rate (commands ++ playing) more leaf.context host) →
        (node.state (run rate (commands ++ playing ++ more)).studio).ended = true ∧
          ∀ k i, ((run rate (commands ++ playing ++ more)).studio.instrument k).played[i]? =
            some node → i ∉ ((run rate (commands ++ playing ++ more)).studio.instrument k).voiceIds := by
  have hs := (lawful_run rate commands).sound
  have hknown := (Studio.offers_of_node hs hnode).1.known
  have htimed := timed_of_sounds hnode hconnected hplaying
  refine ⟨Node.scheduled_iff.2 htimed, fun more hpasses => ?_⟩
  have hplayed := (moves_run rate commands playing).grows
  have hlawful := lawful_run rate (commands ++ playing ++ more)
  have hended : (node.state (run rate (commands ++ playing ++ more)).studio).ended = true := by
    refine ended_of_sources hlawful ?_ hemits fun leaf hleaf host hsource => ?_
    · exact (hknown.grow hplayed).grow (moves_run rate (commands ++ playing) more).grows
    · refine hostEnded_of_passes ?_ hsource (htimed leaf hleaf host hsource)
        (hpasses leaf hleaf host hsource)
      exact (hs.knows_of_reach hknown hleaf).grow hplayed
  refine ⟨hended, fun k i hplayed hmem => ?_⟩
  obtain ⟨voice, hvoice, hlive⟩ := ((exact_of_lawful hlawful k).registered i).1 hmem
  obtain rfl : node = voice := Option.some_inj.1 (hplayed.symm.trans hvoice)
  exact Bool.false_ne_true (hlive.symm.trans hended)

-- A note that is struck, and an instrument that plays it.
def struck : List Command := [
  .make 0 (.oscillator .sine (.fixed 440) none),
  .make 0 (.percussive none none),
  .make 0 (.series 0 [1]),
  .instrument 0 false none none 0,
  .track 0 2]

theorem struck_ends : ∃ node, (run 44100 struck).studio.node? 2 = some node ∧
    node.Scheduled (run 44100 (struck ++ [.start 2 0.5])).studio ∧
    (node.state (run 44100 (struck ++ [.start 2 0.5] ++ [.advanceTo 0 2])).studio).ended = true := by
  have hsome : ((run 44100 struck).studio.node? 2).isSome = true := by decide +kernel
  obtain ⟨node, hnode⟩ := Option.isSome_iff_exists.1 hsome
  have hfacts : ∀ node ∈ (run 44100 struck).studio.node? 2, node.emitsEnded = true ∧
      node.duration.isSome = true ∧
      (∀ inner ∈ node.reach, (inner.state (run 44100 struck).studio).disconnected = false) ∧
      (match node.start 0.5 (run 44100 struck).studio with
        | .ok _ _ => true
        | .error _ _ => false) = true ∧
      ∀ leaf ∈ node.reach, ∀ host ∈ leaf.source?, leaf.context = 0 ∧
        ∀ source ∈ ((run 44100 (struck ++ [.start 2 0.5])).studio.engine 0).nodes[host]?,
          ∀ last ∈ source.endTime, last ≤ 2 := by
    decide +kernel
  obtain ⟨hemits, hlength, hconnected, hstart, hpast⟩ := hfacts node hnode
  cases hstarted : node.start 0.5 (run 44100 struck).studio with
  | error e t => simp [hstarted] at hstart
  | ok u t =>
      have h := none_stuck 44100 struck [.start 2 0.5] 2 node hnode hemits hconnected
        (.lasting 0.5 hlength hstarted)
      refine ⟨node, hnode, h.1, (h.2 [.advanceTo 0 2] fun leaf hleaf host hsource => ?_).1⟩
      obtain ⟨hcontext, hlast⟩ := hpast leaf hleaf host hsource
      refine ⟨[], .advanceTo 0 2, [], 2, rfl, by rw [hcontext]; rfl, fun source last hat hend => ?_⟩
      rw [hcontext, List.append_nil] at hat
      exact hlast source hat last hend

end Session

end Patchbay
