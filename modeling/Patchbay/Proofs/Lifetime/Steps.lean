import Patchbay.Proofs.Disconnection.Aftermath

namespace Patchbay

open Act

-- A look at the time of a node, a start of the node itself, or a stop of the node itself.
inductive Step where
  | check (node : Node) (time : Float)
  | begin (node : Node) (time : Float)
  | cease (node : Node) (time : Float)

namespace Step

def node : Step → Node
  | .check node _ | .begin node _ | .cease node _ => node

def act : Step → Act Unit
  | .check node time => node.checkTime time
  | .begin node time => node.startOwn time
  | .cease node time => node.stopOwn time

-- Only looks can find a time that is not finite.
def Timely : Step → Prop
  | .check _ time => time.isFinite = true
  | .begin _ _ | .cease _ _ => True

end Step

def Studio.gone (s : Studio) (id : NodeId) : Bool := (s.ledger.fate id).cut

namespace Node

-- When what feeds a chain may stop, for a stop of the chain at a time.
def chainTime : List Node → Float → Float
  | [], time => time
  | node :: rest, time =>
    if node.isStartable then chainTime rest time + node.release.getD 0 else chainTime rest time

mutual
-- `gone` tells what is disconnected.
def stopSteps (gone : NodeId → Bool) (node : Node) (time : Float) : List Step :=
  .check node time :: if gone node.id then [] else
    match node with
    | .leaf info host source params modulators =>
      .cease (.leaf info host source params modulators) time :: stopAllSteps gone modulators time
    | .envelope info host attack release => [.cease (.envelope info host attack release) time]
    | .series _ head tail =>
      chainSteps gone tail time ++
        if head.isStartable then head.stopSteps gone (chainTime tail time) else []
    | .parallel _ _ _ branches => stopAllSteps gone branches time
    | .wrapped _ inner others =>
      (if inner.isStartable then inner.stopSteps gone time else []) ++ stopAllSteps gone others time

def stopAllSteps (gone : NodeId → Bool) : List Node → Float → List Step
  | [], _ => []
  | node :: rest, time =>
    (if node.isStartable then node.stopSteps gone time else []) ++ stopAllSteps gone rest time

def chainSteps (gone : NodeId → Bool) : List Node → Float → List Step
  | [], _ => []
  | node :: rest, time =>
    chainSteps gone rest time ++
      if node.isStartable then node.stopSteps gone (chainTime rest time) else []
end

def endSteps (gone : NodeId → Bool) (node : Node) (time : Float) : List Step :=
  match node.duration with
  | some duration => node.stopSteps gone (time + duration)
  | none => []

mutual
def startSteps (gone : NodeId → Bool) (node : Node) (time : Float) : List Step :=
  [.check node time, .begin node time] ++ (match node with
    | .leaf _ _ _ _ modulators => startAllSteps gone modulators time
    | .envelope _ _ _ _ => []
    | .series _ head tail =>
      (if head.isStartable then head.startSteps gone time else []) ++ startAllSteps gone tail time
    | .parallel _ _ _ branches => startAllSteps gone branches time
    | .wrapped _ inner others =>
      (if inner.isStartable then inner.startSteps gone time else []) ++
        startAllSteps gone others time) ++
  node.endSteps gone time

def startAllSteps (gone : NodeId → Bool) : List Node → Float → List Step
  | [], _ => []
  | node :: rest, time =>
    (if node.isStartable then node.startSteps gone time else []) ++ startAllSteps gone rest time
end

variable {gone : NodeId → Bool}

theorem startSteps_eq (node : Node) (time : Float) : node.startSteps gone time =
    .check node time :: .begin node time ::
      (startAllSteps gone node.parts time ++ node.endSteps gone time) := by
  cases node <;> simp [startSteps, startAllSteps, parts]

section Reach

variable {root : Node} {nodes : List Node}

def About (root : Node) (steps : List Step) : Prop := ∀ step ∈ steps, step.node ∈ root.reach

theorem about_nil : About root [] := by simp [About]

theorem about_cons {step : Step} {steps : List Step} (h : step.node ∈ root.reach)
    (hsteps : About root steps) : About root (step :: steps) := List.forall_mem_cons.2 ⟨h, hsteps⟩

theorem about_append {steps more : List Step} (h : About root steps) (hmore : About root more) :
    About root (steps ++ more) := List.forall_mem_append.2 ⟨h, hmore⟩

theorem about_ite {c : Prop} [Decidable c] {steps : List Step} (h : About root steps) :
    About root (if c then steps else []) := by
  split
  case isTrue => exact h
  case isFalse => exact about_nil

theorem about_stopAllSteps
    (h : ∀ node ∈ nodes, ∀ time, About root (node.stopSteps gone time)) (time : Float) :
    About root (stopAllSteps gone nodes time) := by
  induction nodes with
  | nil => exact about_nil
  | cons node rest ih =>
      rw [stopAllSteps]
      refine about_append (about_ite (h node List.mem_cons_self time)) (ih fun other hother => ?_)
      exact h other (List.mem_cons_of_mem _ hother)

theorem about_chainSteps
    (h : ∀ node ∈ nodes, ∀ time, About root (node.stopSteps gone time)) (time : Float) :
    About root (chainSteps gone nodes time) := by
  induction nodes with
  | nil => exact about_nil
  | cons node rest ih =>
      rw [chainSteps]
      refine about_append (ih fun other hother => ?_) (about_ite (h node List.mem_cons_self _))
      exact h other (List.mem_cons_of_mem _ hother)

theorem about_stopSteps {node : Node} (hnode : node ∈ root.reach) (time : Float) :
    About root (node.stopSteps gone time) := by
  induction node using induct generalizing time with
  | step node ih =>
      have hparts : ∀ part ∈ node.parts, ∀ time, About root (part.stopSteps gone time) :=
        fun part hpart => ih part hpart (reach_trans (part_mem_reach hpart) hnode)
      have hall (time : Float) := about_stopAllSteps hparts time
      unfold stopSteps
      refine about_cons hnode ?_
      split
      case isTrue => exact about_nil
      case isFalse =>
          cases node with
          | leaf info host source params modulators => exact about_cons hnode (hall time)
          | envelope info host attack release => exact about_cons hnode about_nil
          | series info head tail =>
              refine about_append (about_chainSteps (fun part hpart => ?_) time) (about_ite ?_)
              · exact hparts part (List.mem_cons_of_mem head hpart)
              · exact hparts head List.mem_cons_self _
          | parallel info input output branches => exact hall time
          | wrapped info inner others => exact hall time

theorem about_startSteps {node : Node} (hnode : node ∈ root.reach) (time : Float) :
    About root (node.startSteps gone time) := by
  induction node using induct with
  | step node ih =>
      have hparts {nodes : List Node} (hnodes : nodes ⊆ node.parts) :
          About root (startAllSteps gone nodes time) := by
        induction nodes with
        | nil => exact about_nil
        | cons part rest ih' =>
            obtain ⟨hpart, hrest⟩ := List.cons_subset.1 hnodes
            rw [startAllSteps]
            refine about_append (about_ite ?_) (ih' hrest)
            exact ih part hpart (reach_trans (part_mem_reach hpart) hnode)
      rw [startSteps_eq]
      refine about_cons hnode (about_cons hnode (about_append (hparts (List.Subset.refl _)) ?_))
      unfold endSteps
      split
      case h_1 => exact about_stopSteps hnode _
      case h_2 => exact about_nil

end Reach

end Node

section Does

variable {α β : Type} {s t : Studio}

theorem Sounding.gone (h : Sounding s t) : t.gone = s.gone := by
  funext id
  rw [Studio.gone, h.fate, Studio.gone]

theorem Act.bind_congr {act act' : Act β} {next next' : β → Act α} (h : act s = act' s)
    (hnext : ∀ b t, act' s = .ok b t → next b t = next' b t) :
    (act >>= next) s = (act' >>= next') s := by
  change EStateM.bind act next s = EStateM.bind act' next' s
  unfold EStateM.bind
  rw [h]
  cases hact : act' s with
  | ok b t => exact hnext b t hact
  | error e t => rfl

theorem Step.keeps_act (step : Step) : Keeps Sounding step.act := by
  cases step with
  | check node time => exact node.keeps_checkTime time
  | begin node time =>
      cases node with
      | leaf info host source params modulators =>
          cases source with
          | true => exact Node.keeps_startSource _ host time
          | false => exact keeps_pure _
      | envelope info host attack release =>
          exact keeps_bind (Wires.started _) fun _ => attack.keeps_schedule _ _ _ _
      | series | parallel | wrapped => exact keeps_pure _
  | cease node time => exact node.keeps_stopOwn time

theorem Step.gone_of_forM {steps : List Step} (h : steps.forM Step.act s = .ok () t) :
    t.gone = s.gone := by
  induction steps generalizing s with
  | nil =>
      cases h
      rfl
  | cons step rest ih =>
      obtain ⟨⟨⟩, u, hstep, hrest⟩ := Act.ok_of_seq h
      have hsu : Sounding s u := (ends_of_ok hstep (step.keeps_act s)).1
      rw [ih hrest, hsu.gone]

-- With `gone` telling what is disconnected, the act takes the steps in order and gives `a`.
def Does (gone : NodeId → Bool) (act : Act α) (steps : List Step) (a : α) : Prop :=
  ∀ s : Studio, s.gone = gone → act s = (do steps.forM Step.act; return a : Act α) s

variable {gone : NodeId → Bool}

theorem does_pure (a : α) : Does gone (pure a) [] a := fun _ _ => rfl

theorem does_step (step : Step) : Does gone step.act [step] () := fun _ _ => by
  simp

theorem does_bind {act : Act β} {next : β → Act α} {steps more : List Step} {a : α} {b : β}
    (h : Does gone act steps b) (hnext : Does gone (next b) more a) :
    Does gone (act >>= next) (steps ++ more) a := by
  intro s hs
  have hall : (do (steps ++ more).forM Step.act; return a : Act α) =
      ((do steps.forM Step.act; return b : Act β) >>= fun _ => do
        more.forM Step.act
        return a) := by
    simp
  rw [hall]
  refine Act.bind_congr (h s hs) fun b' t ht => ?_
  obtain ⟨⟨⟩, u, hsteps, hpure⟩ := Act.ok_of_seq ht
  cases hpure
  exact hnext t ((Step.gone_of_forM hsteps).trans hs)

theorem does_read {next : Studio → Act α} {steps : List Step} {a : α}
    (h : ∀ s : Studio, s.gone = gone → Does gone (next s) steps a) :
    Does gone (get >>= next) steps a := fun s hs => h s hs s hs

namespace Node

variable {node : Node} {nodes : List Node} {time : Float}

-- A look at the time, and then nothing for a node that is disconnected.
theorem does_passed {act : Act Unit} {steps : List Step} (h : Does gone act steps ()) :
    Does gone (do
      node.checkTime time
      if (node.state (← get)).disconnected then return
      act) (.check node time :: if gone node.id then [] else steps) () := by
  refine does_bind (does_step (.check node time)) (does_read fun s hs => ?_)
  have hgone : (node.state s).disconnected = gone node.id := by
    rw [state_disconnected, ← hs, Studio.gone]
  rw [hgone]
  cases gone node.id with
  | true => exact does_pure ()
  | false => exact h

theorem does_stopAll
    (h : ∀ node ∈ nodes, ∀ time, Does gone (node.stop time) (node.stopSteps gone time) ()) :
    Does gone (stopAll nodes time) (stopAllSteps gone nodes time) () := by
  induction nodes with
  | nil => exact does_pure ()
  | cons node rest ih =>
      have hrest := ih fun other hother => h other (List.mem_cons_of_mem _ hother)
      rw [stopAll, stopAllSteps]
      split
      case isTrue => exact does_bind (h node List.mem_cons_self time) hrest
      case isFalse => exact hrest

theorem does_stopChain
    (h : ∀ node ∈ nodes, ∀ time, Does gone (node.stop time) (node.stopSteps gone time) ()) :
    Does gone (stopChain nodes time) (chainSteps gone nodes time) (chainTime nodes time) := by
  induction nodes with
  | nil => exact does_pure time
  | cons node rest ih =>
      have hrest := ih fun other hother => h other (List.mem_cons_of_mem _ hother)
      rw [stopChain, chainSteps, chainTime]
      refine does_bind hrest ?_
      split
      case isTrue =>
          rw [← List.append_nil (node.stopSteps gone _)]
          exact does_bind (h node List.mem_cons_self (chainTime rest time)) (does_pure _)
      case isFalse => exact does_pure _

theorem does_stop (node : Node) (time : Float) :
    Does gone (node.stop time) (node.stopSteps gone time) () := by
  induction node using induct generalizing time with
  | step node ih =>
      have hparts : Does gone (stopAll node.parts time) (stopAllSteps gone node.parts time) () :=
        does_stopAll ih
      cases node with
      | leaf info host source params modulators =>
          rw [stop, stopSteps]
          refine does_passed ?_
          cases source with
          | true =>
              exact does_bind (does_step (.cease (.leaf info host true params modulators) time)) hparts
          | false =>
              -- The stop of what is no source is no act.
              have hown : Does gone (pure ())
                  [.cease (.leaf info host false params modulators) time] () :=
                does_step (.cease (.leaf info host false params modulators) time)
              rw [← pure_bind () fun _ => stopAll modulators time]
              exact does_bind hown hparts
      | envelope info host attack release =>
          cases release with
          | none =>
              rw [stop, stopSteps]
              exact does_passed (does_step (.cease (.envelope info host attack none) time))
          | some release =>
              rw [stop, stopSteps]
              exact does_passed (does_step (.cease (.envelope info host attack (some release)) time))
      | series info head tail =>
          rw [stop, stopSteps]
          have htail : Does gone (stopChain tail time) (chainSteps gone tail time)
              (chainTime tail time) :=
            does_stopChain fun part hpart => ih part (List.mem_cons_of_mem head hpart)
          refine does_passed (does_bind htail ?_)
          split
          case isTrue => exact ih head List.mem_cons_self _
          case isFalse => exact does_pure ()
      | parallel info input output branches =>
          rw [stop, stopSteps]
          exact does_passed hparts
      | wrapped info inner others =>
          rw [stop, stopSteps]
          refine does_passed ?_
          change Does gone (stopAll (inner :: others) time) (stopAllSteps gone (inner :: others) time) ()
            at hparts
          rwa [stopAll, stopAllSteps] at hparts

theorem does_stopAtEnd (node : Node) (time : Float) :
    Does gone (node.stopAtEnd time) (node.endSteps gone time) () := by
  unfold stopAtEnd endSteps
  cases node.duration with
  | some duration => exact does_stop node (time + duration)
  | none => exact does_pure ()

theorem does_startAll
    (h : ∀ node ∈ nodes, Does gone (node.start time) (node.startSteps gone time) ()) :
    Does gone (startAll nodes time) (startAllSteps gone nodes time) () := by
  induction nodes with
  | nil => exact does_pure ()
  | cons node rest ih =>
      have hrest := ih fun other hother => h other (List.mem_cons_of_mem _ hother)
      rw [startAll, startAllSteps]
      split
      case isTrue => exact does_bind (h node List.mem_cons_self) hrest
      case isFalse => exact hrest

theorem does_start (node : Node) (time : Float) :
    Does gone (node.start time) (node.startSteps gone time) () := by
  induction node using induct with
  | step node ih =>
      rw [start_eq, startSteps_eq]
      refine does_bind (does_step (.check node time)) ?_
      refine does_bind (does_step (.begin node time)) ?_
      exact does_bind (does_startAll ih) (does_stopAtEnd node time)

end Node

-- A host can refuse it, and nobody else.
def Refusable (act : Act α) : Prop :=
  ∀ s, Ends act s (fun _ _ => True) fun e _ => ∃ fault, e = .host fault

theorem refusable_pure (a : α) : Refusable (pure a) := fun _ => by
  rw [ends_pure]
  trivial

theorem refusable_get : Refusable (get : Act Studio) := fun _ => by
  rw [ends_get]
  trivial

theorem refusable_changeNode (id : NodeId) (f : NodeState → NodeState) :
    Refusable (changeNode id f) := fun _ => by
  rw [changeNode, ends_modify]
  trivial

theorem refusable_host (context : ContextId) (call : Engine → Except HostFault Engine) :
    Refusable (Act.host context call) := fun _ =>
  ends_host (fun _ _ => trivial) fun fault _ => ⟨fault, rfl⟩

theorem refusable_bind {act : Act β} {next : β → Act α} (h : Refusable act)
    (hnext : ∀ b, Refusable (next b)) : Refusable (act >>= next) := fun s => by
  rw [ends_bind]
  exact (h s).mono (fun b t _ => hnext b t) fun _ _ he => he

theorem refusable_schedule (contour : Contour) (context : ContextId) (host : HostId) (param : Param)
    (time : Float) : Refusable (contour.schedule context host param time) := by
  have hstages : ∀ (stages : List Stage) (time : Float),
      Refusable (Contour.scheduleStages context host param time stages) := by
    intro stages
    induction stages with
    | nil => exact fun _ => refusable_pure ()
    | cons stage rest ih => exact fun _ => refusable_bind (refusable_host _ _) fun _ => ih _
  have hnow : Refusable (Act.now context) := refusable_bind refusable_get fun s => refusable_pure _
  exact refusable_bind hnow fun _ => hstages contour.stages _

namespace Node

theorem refusable_startOwn (node : Node) (time : Float) : Refusable (node.startOwn time) := by
  unfold startOwn
  split
  case h_1 info host source params modulators =>
      split
      case isTrue =>
          refine refusable_bind refusable_get fun s => ?_
          split
          case isTrue => exact refusable_pure _
          case isFalse =>
              exact refusable_bind (refusable_changeNode _ _) fun _ => refusable_host _ _
      case isFalse => exact refusable_pure _
  case h_2 =>
      exact refusable_bind (refusable_changeNode _ _) fun _ => refusable_schedule _ _ _ _ _
  all_goals exact refusable_pure _

theorem refusable_stopOwn (node : Node) (time : Float) : Refusable (node.stopOwn time) := by
  unfold stopOwn
  split
  case h_1 =>
      refine refusable_bind refusable_get fun s => ?_
      split
      case isTrue => exact refusable_host _ _
      case isFalse => exact refusable_pure _
  case h_2 => exact refusable_schedule _ _ _ _ _
  case h_3 => exact refusable_pure _

theorem checkTime_eq (node : Node) (time : Float) (s : Studio) : node.checkTime time s =
    if time.isFinite then .ok () s else .error (.invalidTime node.label time) s := by
  unfold checkTime
  cases time.isFinite <;> rfl

end Node

namespace Step

theorem timely_of_ok {step : Step} (h : step.act s = .ok () t) : step.Timely := by
  cases step with
  | check node time =>
      change node.checkTime time s = .ok () t at h
      rw [node.checkTime_eq] at h
      split at h
      case isTrue hfinite => exact hfinite
      case isFalse => cases h
  | begin | cease => trivial

-- A step fails for a time, and then changes nothing, or for a host.
theorem error_cases {step : Step} {e : Error} (h : step.act s = .error e t) :
    (∃ node x, step = .check node x ∧ x.isFinite = false ∧ e = .invalidTime node.label x ∧ t = s) ∨
      ∃ fault, e = .host fault := by
  cases step with
  | check node time =>
      change node.checkTime time s = .error e t at h
      rw [node.checkTime_eq] at h
      split at h
      case isTrue => cases h
      case isFalse hfinite =>
          cases h
          exact .inl ⟨node, time, rfl, Bool.eq_false_iff.2 hfinite, rfl, rfl⟩
  | begin node time => exact .inr (ends_of_error h (node.refusable_startOwn time s))
  | cease node time => exact .inr (ends_of_error h (node.refusable_stopOwn time s))

variable {steps : List Step}

theorem timely_of_forM (h : steps.forM Step.act s = .ok () t) : ∀ step ∈ steps, step.Timely := by
  induction steps generalizing s with
  | nil => simp
  | cons step rest ih =>
      obtain ⟨⟨⟩, u, hstep, hrest⟩ := Act.ok_of_seq h
      exact List.forall_mem_cons.2 ⟨timely_of_ok hstep, ih hrest⟩

-- A time that is not finite is found at the first look.
theorem forM_check_untimely {node : Node} {time : Float} (h : time.isFinite = false)
    (rest : List Step) : (Step.check node time :: rest).forM Step.act s =
      .error (.invalidTime node.label time) s := by
  change EStateM.bind (node.checkTime time) _ s = _
  rw [EStateM.bind, node.checkTime_eq, h]
  rfl

-- The steps before the one that fails are done.
theorem split_of_forM {e : Error} (h : steps.forM Step.act s = .error e t) :
    ∃ before step after u, steps = before ++ step :: after ∧
      before.forM Step.act s = .ok () u ∧ step.act u = .error e t := by
  induction steps generalizing s with
  | nil => cases h
  | cons step rest ih =>
      obtain hstep | ⟨⟨⟩, u, hstep, hrest⟩ := Act.error_of_seq h
      · exact ⟨[], step, rest, s, rfl, rfl, hstep⟩
      · obtain ⟨before, failing, after, v, rfl, hbefore, hfails⟩ := ih hrest
        refine ⟨step :: before, failing, after, v, rfl, ?_, hfails⟩
        change (step.act >>= fun _ => before.forM Step.act) s = _
        rw [run_bind hstep, hbefore]

-- What is left of the steps when one of them has a time that is not finite: those before it are
-- done, and the failure names the time.
def StopShort (steps : List Step) (s : Studio) (e : Error) (t : Studio) : Prop :=
  ∃ before node x after, steps = before ++ .check node x :: after ∧ x.isFinite = false ∧
    e = .invalidTime node.label x ∧ before.forM Step.act s = .ok () t

theorem forM_cases (steps : List Step) (s : Studio) :
    (∃ t, steps.forM Step.act s = .ok () t ∧ ∀ step ∈ steps, step.Timely) ∨
      ∃ e t, steps.forM Step.act s = .error e t ∧
        (StopShort steps s e t ∨ ∃ fault, e = .host fault) := by
  cases hrun : steps.forM Step.act s with
  | ok u t => exact .inl ⟨t, rfl, timely_of_forM hrun⟩
  | error e t =>
      obtain ⟨before, step, after, u, rfl, hbefore, hfails⟩ := split_of_forM hrun
      refine .inr ⟨e, t, rfl, ?_⟩
      obtain ⟨node, x, rfl, hx, rfl, rfl⟩ | hfault := error_cases hfails
      · exact .inl ⟨before, node, x, after, rfl, hx, rfl, hbefore⟩
      · exact .inr hfault

end Step

end Does

namespace Session

-- What comes of a start or a stop, for the steps that it takes: all of them are done; or those before
-- the first time that is not finite are; or a host refuses what a caller has had it do already.
def Comes (commands : List Command) (s : Studio) (act : Act Unit) (steps : List Step) : Prop :=
  (∃ t, act s = .ok () t ∧ steps.forM Step.act s = .ok () t ∧ ∀ step ∈ steps, step.Timely) ∨
    (∃ e t, act s = .error e t ∧ Step.StopShort steps s e t) ∨
    (∃ fault t, act s = .error (.host fault) t) ∧
      ∃ command ∈ commands, command.startsHost = true

theorem comes (rate : Float) {commands : List Command} {node : Node} {act : Act Unit} {steps : List Step}
    (hdoes : Does (run rate commands).studio.gone act steps ())
    (hrefuses : Fit (run rate commands).studio →
      Ends act (run rate commands).studio (fun _ _ => True) fun e _ => node.Untimely e) :
    Comes commands (run rate commands).studio act steps := by
  have hact : act (run rate commands).studio = steps.forM Step.act (run rate commands).studio := by
    simpa using hdoes _ rfl
  unfold Comes
  rw [hact]
  obtain ⟨t, hrun, htimely⟩ | ⟨e, t, hrun, hshort | ⟨fault, rfl⟩⟩ := Step.forM_cases steps _
  · exact .inl ⟨t, hrun, hrun, htimely⟩
  · exact .inr (.inl ⟨e, t, hrun, hshort⟩)
  · refine .inr (.inr ⟨⟨fault, t, hrun⟩, ?_⟩)
    -- Without such commands a host refuses nothing.
    by_contra hnone
    have hstarts : ∀ command ∈ commands, command.startsHost = false := by simpa using hnone
    have hfit : Fit (run rate commands).studio := ⟨housed_run rate commands, matched_run rate hstarts⟩
    obtain ⟨inner, -, x, -, he⟩ := ends_of_error (hact.trans hrun) (hrefuses hfit)
    cases he

-- A start or a stop at a time that is not finite is refused, and changes nothing. Otherwise the steps
-- are done in their order, all about what the node reaches, up to the first whose own time is not
-- finite: a time that comes of a length or of releases. Without such a time the call succeeds.
theorem stopped_short (rate : Float) (commands : List Command) (id : NodeId) (node : Node)
    (hnode : (run rate commands).studio.node? id = some node) (time : Float) :
    let s := (run rate commands).studio
    (time.isFinite = false → node.start time s = .error (.invalidTime node.label time) s ∧
      node.stop time s = .error (.invalidTime node.label time) s) ∧
    Comes commands s (node.start time) (node.startSteps s.gone time) ∧
    Comes commands s (node.stop time) (node.stopSteps s.gone time) ∧
    ∀ step ∈ node.startSteps s.gone time ++ node.stopSteps s.gone time, step.node ∈ node.reach := by
  intro s
  have hsound : s.ledger.Sound 0 := (lawful_run rate commands).sound
  have hknown := (Studio.offers_of_node hsound hnode).1.known
  refine ⟨fun htime => ?_, ?_, ?_, ?_⟩
  · have hstart : node.start time s = (node.startSteps s.gone time).forM Step.act s := by
      simpa using Node.does_start node time s rfl
    have hstop : node.stop time s = (node.stopSteps s.gone time).forM Step.act s := by
      simpa using Node.does_stop node time s rfl
    unfold Node.stopSteps at hstop
    rw [hstart, hstop, Node.startSteps_eq]
    exact ⟨Step.forM_check_untimely htime _, Step.forM_check_untimely htime _⟩
  · exact comes rate (Node.does_start node time) fun hfit => (hfit.refuses hsound hknown time).1
  · exact comes rate (Node.does_stop node time) fun hfit => (hfit.refuses hsound hknown time).2
  · exact Node.about_append (Node.about_startSteps node.self_mem_reach time)
      (Node.about_stopSteps node.self_mem_reach time)

-- A tone through an envelope that lasts as long as there are times.
def endless : List Command := [
  .make 0 (.oscillator .sine (.fixed 440) none),
  .make 0 (.percussive (some 0) (some 1e308)),
  .make 0 (.series 0 [1])]

theorem endless_stopped_short : ∃ node, (run 44100 endless).studio.node? 2 = some node ∧
    let s := (run 44100 endless).studio
    ((1e308 : Float).isFinite = false →
      node.start 1e308 s = .error (.invalidTime node.label 1e308) s ∧
      node.stop 1e308 s = .error (.invalidTime node.label 1e308) s) ∧
    Comes endless s (node.start 1e308) (node.startSteps s.gone 1e308) ∧
    Comes endless s (node.stop 1e308) (node.stopSteps s.gone 1e308) ∧
    ∀ step ∈ node.startSteps s.gone 1e308 ++ node.stopSteps s.gone 1e308,
      step.node ∈ node.reach := by
  have hsome : ((run 44100 endless).studio.node? 2).isSome = true := by decide +kernel
  obtain ⟨node, hnode⟩ := Option.isSome_iff_exists.1 hsome
  exact ⟨node, hnode, stopped_short 44100 endless 2 node hnode 1e308⟩

-- The tone is started, and the envelope given its course, before the time to stop turns out not to
-- be finite.
theorem endless_half_started : ∃ node e t, (run 44100 endless).studio.node? 2 = some node ∧
    (1e308 : Float).isFinite = true ∧ node.start 1e308 (run 44100 endless).studio = .error e t ∧
    (run 44100 endless).studio.started 0 = false ∧ t.started 0 = true ∧
    ((run 44100 endless).studio.engine 0).starts = [] ∧ (t.engine 0).starts = [(1, 1e308)] := by
  have hsome : ((run 44100 endless).studio.node? 2).isSome = true := by decide +kernel
  obtain ⟨node, hnode⟩ := Option.isSome_iff_exists.1 hsome
  have hfacts : ∀ node ∈ (run 44100 endless).studio.node? 2,
      (node.start 1e308).succeeds (run 44100 endless).studio = false ∧
        ((node.start 1e308).after (run 44100 endless).studio).started 0 = true ∧
        (((node.start 1e308).after (run 44100 endless).studio).engine 0).starts = [(1, 1e308)] := by
    decide +kernel
  have hbefore : (run 44100 endless).studio.started 0 = false ∧
      ((run 44100 endless).studio.engine 0).starts = [] := by decide +kernel
  obtain ⟨hfails, hstarted, hstarts⟩ := hfacts node hnode
  obtain ⟨e, he⟩ := error_of_not_succeeds hfails
  exact ⟨node, e, _, hnode, by decide +kernel, he, hbefore.1, hstarted, hbefore.2, hstarts⟩

end Session

end Patchbay
