import Patchbay.Proofs.Lifetime.Steps
import Patchbay.Proofs.Builder.Parts

namespace Patchbay

open Act

-- What stands around hosts and nodes.
structure Backdrop where
  instruments : Array Instrument
  builders : Array Builder
  asked : List (NodeId × String)
  heard : Array Notice

namespace Studio

def backdrop (s : Studio) : Backdrop := ⟨s.instruments, s.builders, s.asked, s.heard⟩

-- The same hosts and nodes somewhere else.
def against (s : Studio) (scene : Backdrop) : Studio := { s with
  instruments := scene.instruments
  builders := scene.builders
  asked := scene.asked
  heard := scene.heard }

end Studio

-- Wherever it takes place, the act does the same to hosts and nodes, and nothing to the rest.
def Overlooks {α : Type} (act : Act α) : Prop := ∀ (s : Studio) (scene : Backdrop),
  act (s.against scene) = match act s with
    | .ok a t => .ok a (t.against scene)
    | .error e t => .error e (t.against scene)

section Rules

variable {α β : Type}

theorem overlooks_pure (a : α) : Overlooks (pure a) := fun _ _ => rfl

theorem overlooks_throw (e : Error) : Overlooks (throw e : Act α) := fun _ _ => rfl

theorem overlooks_bind {act : Act β} {next : β → Act α} (h : Overlooks act)
    (hnext : ∀ b, Overlooks (next b)) : Overlooks (act >>= next) := by
  intro s scene
  have hs := h s scene
  cases hact : act s with
  | ok b t =>
      rw [hact] at hs
      rw [run_bind hs, run_bind hact]
      exact hnext b t scene
  | error e t =>
      rw [hact] at hs
      rw [bind_of_error hs, bind_of_error hact]

theorem overlooks_ite {p : Prop} [Decidable p] {yes no : Act α} (hyes : Overlooks yes)
    (hno : Overlooks no) : Overlooks (if p then yes else no) := by
  split
  · exact hyes
  · exact hno

-- What is looked at is none of the rest.
theorem overlooks_read {next : Studio → Act α} (hsame : ∀ s scene, next (s.against scene) = next s)
    (h : ∀ s, Overlooks (next s)) : Overlooks (get >>= next) := by
  intro s scene
  change next (s.against scene) (s.against scene) = match next s s with
    | .ok a t => .ok a (t.against scene)
    | .error e t => .error e (t.against scene)
  rw [hsame]
  exact h s s scene

theorem overlooks_modify {f : Studio → Studio}
    (h : ∀ s scene, f (s.against scene) = (f s).against scene) : Overlooks (modify f) := by
  intro s scene
  change EStateM.Result.ok PUnit.unit (f (s.against scene)) = .ok ⟨⟩ ((f s).against scene)
  rw [h]

theorem overlooks_forM {act : β → Act PUnit} {items : List β} (h : ∀ b ∈ items, Overlooks (act b)) :
    Overlooks (items.forM act) := by
  induction items with
  | nil => exact overlooks_pure _
  | cons b rest ih =>
      refine overlooks_bind (h b List.mem_cons_self) fun _ => ih fun other hother => ?_
      exact h other (List.mem_cons_of_mem b hother)

theorem overlooks_ofExcept {ε : Type} (f : ε → Error) (result : Except ε α) :
    Overlooks (ofExcept f result) := by
  cases result with
  | ok a => exact overlooks_pure a
  | error e => exact overlooks_throw _

theorem Overlooks.run {act : Act α} {a : α} {s t : Studio} (h : Overlooks act)
    (hrun : act s = .ok a t) (scene : Backdrop) : act (s.against scene) = .ok a (t.against scene) := by
  rw [h s scene, hrun]

theorem Overlooks.backdrop {act : Act α} {a : α} {s t : Studio} (h : Overlooks act)
    (hrun : act s = .ok a t) : t.backdrop = s.backdrop := by
  have hsame : act s = .ok a (t.against s.backdrop) := h.run hrun s.backdrop
  have ht : t = t.against s.backdrop := (EStateM.Result.ok.inj (hrun.symm.trans hsame)).2
  rw [ht]
  rfl

end Rules

theorem overlooks_changeNode (id : NodeId) (f : NodeState → NodeState) :
    Overlooks (changeNode id f) := overlooks_modify fun _ _ => rfl

theorem overlooks_warn (warning : Warning) : Overlooks (warn warning) :=
  overlooks_modify fun _ _ => rfl

theorem overlooks_setEngine (context : ContextId) (engine : Engine) :
    Overlooks (setEngine context engine) := overlooks_modify fun _ _ => rfl

theorem overlooks_engine (context : ContextId) : Overlooks (engine context) :=
  overlooks_read (fun _ _ => rfl) fun _ => overlooks_pure _

theorem overlooks_now (context : ContextId) : Overlooks (now context) :=
  overlooks_read (fun _ _ => rfl) fun _ => overlooks_pure _

theorem overlooks_host (context : ContextId) (call : Engine → Except HostFault Engine) :
    Overlooks (Act.host context call) := by
  refine overlooks_bind (overlooks_engine context) fun engine => ?_
  exact overlooks_bind (overlooks_ofExcept _ _) fun after => overlooks_setEngine context after

theorem overlooks_createHost (context : ContextId) (kind : NodeKind) :
    Overlooks (createHost context kind) := by
  refine overlooks_bind (overlooks_engine context) fun engine => ?_
  exact overlooks_bind (overlooks_setEngine context _) fun _ => overlooks_pure _

theorem overlooks_schedule (contour : Contour) (context : ContextId) (host : HostId) (param : Param)
    (time : Float) : Overlooks (contour.schedule context host param time) := by
  have hstages (stages : List Stage) (time : Float) :
      Overlooks (Contour.scheduleStages context host param time stages) := by
    induction stages generalizing time with
    | nil => exact overlooks_pure _
    | cons stage rest ih => exact overlooks_bind (overlooks_host context _) fun _ => ih _
  exact overlooks_bind (overlooks_now context) fun _ => hstages contour.stages _

namespace Node

theorem overlooks_startSource (node : Node) (host : HostId) (time : Float) :
    Overlooks (node.startSource host time) := by
  refine overlooks_read (fun _ _ => rfl) fun s => overlooks_ite (overlooks_pure _) ?_
  exact overlooks_bind (overlooks_changeNode _ _) fun _ => overlooks_host _ _

theorem overlooks_stopSource (node : Node) (host : HostId) (time : Float) :
    Overlooks (node.stopSource host time) :=
  overlooks_read (fun _ _ => rfl) fun _ => overlooks_ite (overlooks_host _ _) (overlooks_pure _)

end Node

theorem Step.overlooks_act (step : Step) : Overlooks step.act := by
  cases step with
  | check node time => exact overlooks_ite (overlooks_throw _) (overlooks_pure _)
  | begin node time =>
      cases node with
      | leaf => exact overlooks_ite (Node.overlooks_startSource _ _ _) (overlooks_pure _)
      | envelope =>
          exact overlooks_bind (overlooks_changeNode _ _) fun _ => overlooks_schedule _ _ _ _ _
      | series | parallel | wrapped => exact overlooks_pure _
  | cease node time =>
      change Overlooks (node.stopOwn time)
      unfold Node.stopOwn
      split
      case h_1 => exact Node.overlooks_stopSource _ _ _
      case h_2 => exact overlooks_schedule _ _ _ _ _
      case h_3 => exact overlooks_pure _

namespace Node

theorem overlooks_stop (node : Node) (time : Float) : Overlooks (node.stop time) := by
  intro s scene
  have hsteps : Overlooks (do (node.stopSteps s.gone time).forM Step.act; return () : Act Unit) :=
    overlooks_bind (overlooks_forM fun step _ => step.overlooks_act) fun _ => overlooks_pure _
  have hgone : (s.against scene).gone = s.gone := rfl
  rw [does_stop node time s rfl, does_stop node time (s.against scene) hgone]
  exact hsteps s scene

variable {context : ContextId}

theorem overlooks_enrol (label : String) (duration release : Option Float) (make : NodeInfo → Node) :
    Overlooks (enrol context label duration release make) := by
  intro s scene
  have hlisten (awaiting : List NodeId) (node : Node) : Overlooks (do
      awaiting.forM fun member => changeNode member fun state =>
        { state with listeners := state.listeners ++ [.whole s.nodes.size] }
      return node : Act Node) :=
    overlooks_bind (overlooks_forM fun _ _ => overlooks_changeNode _ _) fun _ => overlooks_pure _
  exact hlisten _ _ { s with nodes := _ } scene

theorem overlooks_connectEndpoint (node : Node) (endpoint : Endpoint) :
    Overlooks (node.connectEndpoint endpoint) :=
  overlooks_bind (overlooks_host _ _) fun _ => overlooks_changeNode _ _

theorem overlooks_connect (node other : Node) : Overlooks (node.connect (.node other)) := by
  have hcheck : Overlooks (node.checkContext other) :=
    overlooks_ite (overlooks_throw _) (overlooks_pure _)
  exact overlooks_bind hcheck fun _ => overlooks_connectEndpoint _ _

theorem overlooks_plug (host : HostId) (param : Param) (drive : Drive) :
    Overlooks (Drive.plug context host param (some drive)) := by
  cases drive with
  | fixed x => exact overlooks_bind (overlooks_host _ _) fun _ => overlooks_pure _
  | source node =>
      refine overlooks_bind (overlooks_host _ _) fun _ => ?_
      exact overlooks_bind (overlooks_connectEndpoint _ _) fun _ => overlooks_pure _

theorem overlooks_bindings (host : HostId) (kind : NodeKind) (params : List (Param × Option Drive)) :
    Overlooks (bind context host kind params) := by
  induction params with
  | nil => exact overlooks_pure _
  | cons entry rest ih =>
      obtain ⟨param, drive⟩ := entry
      cases drive with
      | none => exact ih
      | some drive =>
          rw [bind]
          have hrest : Overlooks (do
              let modulator ← Drive.plug context host param (some drive)
              return modulator.toList ++ (← bind context host kind rest) : Act (List Node)) :=
            overlooks_bind (overlooks_plug _ _ _) fun _ => overlooks_bind ih fun _ => overlooks_pure _
          refine overlooks_ite ?_ hrest
          exact overlooks_bind (overlooks_throw _) fun _ => hrest

theorem overlooks_ofKind (kind : NodeKind) (params : List (Param × Option Drive)) :
    Overlooks (ofKind context kind params) := by
  refine overlooks_bind (overlooks_createHost _ _) fun host => ?_
  refine overlooks_bind (overlooks_bindings _ _ _) fun modulators => ?_
  refine overlooks_bind (overlooks_enrol _ _ _ _) fun node => ?_
  refine overlooks_ite ?_ (overlooks_pure _)
  refine overlooks_bind (overlooks_engine _) fun _ => ?_
  exact overlooks_bind (overlooks_setEngine _ _) fun _ => overlooks_pure _

theorem overlooks_chain (node : Node) (nodes : List Node) : Overlooks (node.chain nodes) := by
  induction nodes generalizing node with
  | nil => exact overlooks_pure _
  | cons next rest ih =>
      refine overlooks_read (fun _ _ => rfl) fun s => overlooks_ite ?_ (ih next)
      exact overlooks_bind (overlooks_connect _ _) fun _ => ih next

theorem overlooks_inSeries (head : Node) (tail : List Node) : Overlooks (inSeries head tail) := by
  unfold inSeries
  split
  · exact overlooks_pure _
  · exact overlooks_bind (overlooks_chain _ _) fun _ => overlooks_enrol _ _ _ _

theorem overlooks_joinBranch (input output : HostId) (branch : Node) :
    Overlooks (joinBranch context input output branch) := by
  have hout := overlooks_connectEndpoint branch (.node output)
  refine overlooks_read (fun _ _ => rfl) fun s => overlooks_ite ?_ hout
  exact overlooks_bind (overlooks_host _ _) fun _ => hout

theorem overlooks_inParallel (first : Node) (rest : List Node) :
    Overlooks (inParallel first rest) := by
  refine overlooks_bind (overlooks_createHost _ _) fun input => ?_
  refine overlooks_bind (overlooks_createHost _ _) fun output => ?_
  refine overlooks_bind (overlooks_host _ _) fun _ => overlooks_bind (overlooks_host _ _) fun _ => ?_
  refine overlooks_bind (overlooks_forM fun branch _ => overlooks_joinBranch _ _ branch) fun _ => ?_
  exact overlooks_enrol _ _ _ _

theorem overlooks_wrap (inner : Node) (others : List Node) : Overlooks (wrap inner others) := by
  unfold wrap
  refine overlooks_ite (overlooks_pure _) ?_
  refine overlooks_bind (overlooks_enrol _ _ _ _) fun node => ?_
  refine overlooks_read (fun _ _ => rfl) fun s => ?_
  exact overlooks_bind (overlooks_changeNode _ _) fun _ => overlooks_pure _

theorem overlooks_shaper (attack : Contour) (release : Option Contour) :
    Overlooks (shaper context attack release) := by
  refine overlooks_bind (overlooks_createHost _ _) fun host => ?_
  exact overlooks_bind (overlooks_host _ _) fun _ => overlooks_enrol _ _ _ _

theorem overlooks_playback (buffer : Option Buffer) (looping : Bool) (detune : Option Drive) :
    Overlooks (playback context buffer looping detune) := by
  refine overlooks_ite ?_ (overlooks_ofKind _ _)
  exact overlooks_bind (overlooks_warn _) fun _ => overlooks_ofKind _ _

theorem overlooks_echo (time : Drive) (amount : Float) :
    Overlooks (echo context time none amount) := by
  refine overlooks_bind (overlooks_ofKind _ _) fun line => ?_
  refine overlooks_bind (overlooks_ofKind _ _) fun color => ?_
  refine overlooks_bind (overlooks_ofKind _ _) fun level => ?_
  refine overlooks_bind (overlooks_inSeries _ _) fun again => ?_
  refine overlooks_bind (overlooks_connect _ _) fun _ => ?_
  exact overlooks_bind (overlooks_connect _ _) fun _ => overlooks_wrap _ _

theorem overlooks_convolver (impulse : Option Buffer) (normalize : Bool) :
    Overlooks (convolver context impulse normalize) := by
  refine overlooks_ite ?_ (overlooks_ofKind _ _)
  exact overlooks_bind (overlooks_warn _) fun _ => overlooks_ofKind _ _

theorem overlooks_destination : Overlooks (destination context) := overlooks_enrol _ _ _ _

theorem overlooks_room (duration : Float) (decay : Option Float) (backwards : Bool) :
    Overlooks (room context duration decay backwards) :=
  overlooks_bind (overlooks_engine _) fun _ => overlooks_convolver _ _

end Node

-- A patch is put together out of nodes at hand; builders only keep them.
theorem Patch.overlooks_assemble (context : ContextId) (patch : Patch) (nodes : List Node) :
    Overlooks (patch.assemble context nodes) := by
  cases patch with
  | connect route patches =>
      cases nodes with
      | nil => exact Node.overlooks_ofKind _ _
      | cons first rest =>
          cases route with
          | serial => exact Node.overlooks_inSeries first rest
          | parallel => exact Node.overlooks_inParallel first rest
  | gain | oscillator | biquadFilter => exact Node.overlooks_ofKind _ _
  | envelope attack release => exact Node.overlooks_shaper _ _
  | delay time feedback =>
      cases feedback with
      | none => exact Node.overlooks_ofKind _ _
      | some amount => exact Node.overlooks_echo _ amount
  | constant | noise =>
      exact overlooks_bind (overlooks_engine _) fun _ => Node.overlooks_playback _ _ _
  | convolver duration decay reverse => exact Node.overlooks_room _ _ _
  | memoize id patch =>
      cases nodes with
      | nil => exact Node.overlooks_ofKind _ _
      | cons node rest => exact overlooks_pure _
  | destination => exact Node.overlooks_destination

end Patchbay
