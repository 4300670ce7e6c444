import Patchbay.Proofs.Session.Commands

namespace Patchbay

open Act

def Notice.observed? (tag : String) : Notice → Option Event
  | .observed other event => if other = tag then some event else none
  | .failed _ _ | .nodeEnded _ | .hostEnded _ => none

-- What observers under the tag have been told so far.
def Studio.heardBy (s : Studio) (tag : String) : List Event :=
  s.heard.toList.filterMap (Notice.observed? tag)

-- Nodes can be made there.
def Studio.Opened (s : Studio) (c : ContextId) : Prop :=
  c < s.engines.size ∧ 0 < (s.engine c).nodes.size

-- They can be made wherever there is an instrument.
def Studio.Opens (s : Studio) : Prop := ∀ k, s.Opened (s.instrument k).context

theorem Studio.Opens.of_contexts {s t : Studio} (h : s.Opens) (hengines : t.engines = s.engines)
    (hcontexts : ∀ k, (t.instrument k).context = (s.instrument k).context) : t.Opens := by
  intro k
  rw [hcontexts, Opened, engine, hengines]
  exact h k

def Engine.hasEnded (engine : Engine) (host : HostId) : Bool := engine.nodes[host]?.any (·.ended)

def Studio.hasEnded (s : Studio) (c : ContextId) (host : HostId) : Bool := (s.engine c).hasEnded host

-- Whatever is asked of a host leaves it open, and ends nothing there.
structure Engine.Lasts (engine after : Engine) : Prop where
  opened : 0 < engine.nodes.size → 0 < after.nodes.size
  ended : ∀ host, after.hasEnded host = engine.hasEnded host

namespace Engine.Lasts

variable {engine after : Engine}

theorem of_eq (hnodes : after.nodes = engine.nodes) : engine.Lasts after where
  opened h := by rwa [hnodes]
  ended host := by rw [hasEnded, hnodes, ← hasEnded]

theorem of_modify {host : HostId} {f : HostNode → HostNode}
    (hnodes : after.nodes = engine.nodes.modify host f) (hf : ∀ node, (f node).ended = node.ended) :
    engine.Lasts after where
  opened h := by rwa [hnodes, Array.size_modify]
  ended other := by
    rw [hasEnded, hasEnded, hnodes, Array.getElem?_modify]
    split
    · cases engine.nodes[other]? <;> simp [hf]
    · rfl

-- A source that has just been made has not ended.
theorem of_create (kind : NodeKind) : engine.Lasts (engine.create kind).2 where
  opened _ := by simp [create, record]
  ended host := by
    simp only [hasEnded, create, record, Array.getElem?_push]
    split
    case isTrue heq =>
        rw [heq, Array.getElem?_eq_none (Nat.le_refl _)]
        rfl
    case isFalse => rfl

end Engine.Lasts

-- Instruments and observers are left alone, also when the clock moves on and sources end.
structure Offstage (s t : Studio) : Prop where
  instruments : t.instruments = s.instruments
  heard : ∀ tag, t.heardBy tag = s.heardBy tag
  opened : ∀ c, s.Opened c → t.Opened c

structure Backstage (s t : Studio) : Prop extends Offstage s t where
  ended : ∀ c host, t.hasEnded c host = s.hasEnded c host

theorem Studio.heardBy_hear (s : Studio) (notice : Notice) (tag : String) :
    ({ s with heard := s.heard.push notice } : Studio).heardBy tag =
      s.heardBy tag ++ (notice.observed? tag).toList := by
  cases h : notice.observed? tag <;> simp [heardBy, h]

variable {s t : Studio}

namespace Offstage

instance : IsPreorder Studio Offstage where
  refl _ := ⟨rfl, fun _ => rfl, fun _ => id⟩
  trans _ _ _ h h' := ⟨h'.instruments.trans h.instruments,
    fun tag => (h'.heard tag).trans (h.heard tag), fun c => h'.opened c ∘ h.opened c⟩

theorem of_engine (context : ContextId) {engine : Engine}
    (h : 0 < (s.engine context).nodes.size → 0 < engine.nodes.size) :
    Offstage s { s with engines := s.engines.modify context fun _ => engine } where
  instruments := rfl
  heard _ := rfl
  opened c hc := by
    refine ⟨by simpa using hc.1, ?_⟩
    rw [s.engine_setEngine]
    split
    case isTrue heq =>
        obtain ⟨rfl, -⟩ := heq
        exact h hc.2
    case isFalse => exact hc.2

-- What is due ends.
theorem of_round (context : ContextId) : Offstage s (s.round context) :=
  of_engine context fun h => by simpa [Engine.endDue] using h

end Offstage

namespace Backstage

instance : IsPreorder Studio Backstage where
  refl s := ⟨refl_of Offstage s, fun _ _ => rfl⟩
  trans _ _ _ h h' := ⟨trans_of Offstage h.toOffstage h'.toOffstage,
    fun c host => (h'.ended c host).trans (h.ended c host)⟩

theorem of_eq (hinstruments : t.instruments = s.instruments) (hheard : t.heard = s.heard)
    (hengines : t.engines = s.engines) : Backstage s t where
  instruments := hinstruments
  heard tag := by rw [Studio.heardBy, hheard, Studio.heardBy]
  opened c h := by rwa [Studio.Opened, Studio.engine, hengines]
  ended c host := by rw [Studio.hasEnded, Studio.engine, hengines, ← Studio.engine, ← Studio.hasEnded]

theorem of_engine (context : ContextId) {engine : Engine} (h : (s.engine context).Lasts engine) :
    Backstage s { s with engines := s.engines.modify context fun _ => engine } where
  toOffstage := .of_engine context h.opened
  ended c host := by
    rw [Studio.hasEnded, s.engine_setEngine]
    split
    case isTrue heq =>
        obtain ⟨rfl, -⟩ := heq
        exact h.ended host
    case isFalse => rfl

theorem of_hear {notice : Notice} (h : ∀ tag, notice.observed? tag = none) :
    Backstage s { s with heard := s.heard.push notice } where
  instruments := rfl
  heard tag := by rw [s.heardBy_hear, h, Option.toList_none, List.append_nil]
  opened _ := id
  ended _ _ := rfl

theorem keeps_modify_eq {f : Studio → Studio} (hinstruments : ∀ s, (f s).instruments = s.instruments)
    (hheard : ∀ s, (f s).heard = s.heard) (hengines : ∀ s, (f s).engines = s.engines) :
    Keeps Backstage (modify f) :=
  keeps_modify fun s => of_eq (hinstruments s) (hheard s) (hengines s)

theorem keeps_hear {notice : Notice} (h : ∀ tag, notice.observed? tag = none) :
    Keeps Backstage (hear notice) :=
  keeps_modify fun _ => of_hear h

theorem keeps_changeNode (id : NodeId) (f : NodeState → NodeState) :
    Keeps Backstage (changeNode id f) :=
  keeps_modify_eq (fun _ => rfl) (fun _ => rfl) fun _ => rfl

theorem keeps_setEngine (context : ContextId) {next : Engine → Engine}
    (h : ∀ engine : Engine, engine.Lasts (next engine)) :
    Keeps Backstage (do setEngine context (next (← engine context))) :=
  fun _ => along_read (along_modify (of_engine context (h _)))

theorem keeps_host (context : ContextId) {call : Engine → Except HostFault Engine}
    (h : ∀ engine after, call engine = .ok after → engine.Lasts after) :
    Keeps Backstage (Act.host context call) :=
  fun _ => along_host fun after hcall => ⟨of_engine context (h _ after hcall), trivial⟩

theorem keeps_enrol (context : ContextId) (label : String) (duration release : Option Float)
    (make : NodeInfo → Node) : Keeps Backstage (Node.enrol context label duration release make) :=
  fun _ => along_read (along_bind (along_set (of_eq rfl rfl rfl)) fun _ t _ _ =>
    keeps_bind (keeps_forM fun _ _ => keeps_changeNode _ _) (fun _ => keeps_pure _) t)

instance : Wires Backstage where
  request context request := keeps_host context fun _ _ h =>
    .of_modify (Request.nodes_send h).2 fun _ => by cases request <;> rfl
  started id := keeps_changeNode id _
  connected id _ := keeps_changeNode id _

instance : Composes Backstage where
  created context kind s :=
    along_read (along_bind (along_modify (of_engine context (.of_create kind)))
      fun _ _ _ _ => along_pure trivial)
  enrolled context label duration release make _ := keeps_enrol context label duration release make
  watched context host watcher := keeps_setEngine context fun _ =>
    .of_modify (f := fun node => { node with watchers := node.watchers ++ [watcher] }) rfl fun _ => rfl
  warned _ := keeps_modify_eq (fun _ => rfl) (fun _ => rfl) fun _ => rfl
  read read s := by
    unfold Along Ends reading
    cases read s.warnings with
    | ok a warnings => exact ⟨of_eq rfl rfl rfl, trivial⟩
    | error e warnings => exact of_eq rfl rfl rfl
  opened _ s := by
    unfold Along Builder.new
    rw [ends_modifyGet]
    exact ⟨of_eq rfl rfl rfl, trivial⟩
  memoized _ _ _ := keeps_modify_eq (fun _ => rfl) (fun _ => rfl) fun _ => rfl

theorem keeps_cutHost (context : ContextId) (host : HostId) :
    Keeps Backstage (Act.host context (·.disconnect host)) := by
  refine keeps_host context fun engine after h => ?_
  obtain ⟨node, -, h⟩ := ok_of_bind h
  cases h
  exact .of_modify (f := fun node => { node with disconnected := true }) rfl fun _ => rfl

theorem keeps_disconnect (node : Node) : Keeps Backstage node.disconnect :=
  node.keeps_disconnect (fun _ _ => keeps_changeNode _ _) keeps_cutHost fun _ => keeps_changeNode _ _

theorem keeps_openContext (rate : Float) : Keeps Backstage (Act.openContext rate) := by
  intro s
  unfold Along Act.openContext
  rw [ends_modifyGet]
  refine ⟨⟨⟨rfl, fun _ => rfl, fun c hc => ⟨?_, ?_⟩⟩, fun c host => ?_⟩, trivial⟩
  · exact Nat.lt_of_lt_of_le hc.1 (by simp)
  · rw [(s.engine_opened rate c).1]
    exact hc.2
  · rw [Studio.hasEnded, Engine.hasEnded, (s.engine_opened rate c).1]
    rfl

theorem keeps_tellEnd (node : Node) (tag : String) (reply : Reply Node) {callBack : Act Unit}
    (h : Keeps Backstage callBack) : Keeps Backstage (node.tellEnd tag reply callBack) := by
  refine keeps_bind (keeps_modify_eq (fun _ => rfl) (fun _ => rfl) fun _ => rfl) fun _ => ?_
  exact keeps_bind keeps_get fun _ => keeps_ite h (keeps_changeNode _ _)

theorem keeps_answer (tag : String) (reply : Reply Node) : Keeps Backstage (Node.answer tag reply) := by
  induction reply generalizing tag with
  | done => exact keeps_pure _
  | stop node next ih =>
      refine keeps_bind (keeps_catch ?_ fun _ => keeps_hear fun _ => rfl) fun _ => ih tag
      exact keeps_bind (keeps_now _) fun _ => node.keeps_stop _
  | ask node other reply next ihReply ihNext =>
      refine keeps_bind (keeps_tellEnd node other reply ?_) fun _ => ihNext tag
      exact keeps_bind (keeps_hear fun _ => rfl) fun _ => ihReply other

theorem keeps_callBack (tag : String) (reply : Reply Node) :
    Keeps Backstage (Node.callBack tag reply) :=
  keeps_bind (keeps_hear fun _ => rfl) fun _ => keeps_answer tag reply

theorem keeps_onEnded (node : Node) (tag : String) (reply : Reply Node) :
    Keeps Backstage (node.onEnded tag reply) :=
  keeps_tellEnd node tag reply (keeps_callBack tag reply)

end Backstage

-- Holds across whatever goes on backstage.
class Stages (R : Studio → Studio → Prop) : Prop extends IsPreorder Studio R where
  backstage : ∀ s t, Backstage s t → R s t

instance : Stages Backstage := ⟨fun _ _ h => h⟩

-- Also when the clock moves on and sources end.
class Clocks (R : Studio → Studio → Prop) : Prop extends Stages R where
  offstage : ∀ s t, Offstage s t → R s t
  backstage s t h := offstage s t h.toOffstage

section Stages

variable {R : Studio → Studio → Prop} [Stages R] {α : Type} {k : InstrumentId}
variable {emit : Instrument.Emit}

theorem stages_of_keeps {act : Act α} (h : Keeps Backstage act) : Keeps R act :=
  h.mono Stages.backstage

namespace Instrument

section Voices

variable (hstopped : ∀ id, Keeps R (changeInstrument k (·.markStopped id)))
include hstopped

theorem stages_stopEach {timeFor : Node → Act Float} (htime : ∀ node, Keeps R (timeFor node)) :
    ∀ voices, Keeps R (stopEach k timeFor voices)
  | [] => keeps_pure _
  | voice :: rest => by
      refine keeps_bind (htime _) fun _ => ?_
      refine keeps_bind (stages_of_keeps (voice.node.keeps_stop _)) fun _ => ?_
      exact keeps_bind (hstopped voice.id) fun _ => stages_stopEach htime rest

theorem stages_stop (ids : Option (List VoiceId)) (time delay : Option Float) :
    Keeps R (stop k ids time delay) :=
  keeps_bind (keeps_instrument k) fun _ =>
    stages_stopEach hstopped (fun _ => keeps_bind (keeps_now _) fun _ => keeps_pure _) _

theorem stages_steal (time : Float) : Keeps R (steal k time) :=
  keeps_bind (keeps_instrument k) fun _ => stages_stopEach hstopped (fun _ => keeps_pure _) _

end Voices

theorem stages_ready (inst : Instrument) (play : Play) : Keeps R (inst.ready play) := by
  refine keeps_bind (stages_of_keeps (inst.keeps_nodeFor play)) fun node => ?_
  split
  · exact keeps_bind (stages_of_keeps (node.keeps_connect _)) fun _ => keeps_pure _
  · exact keeps_bind (keeps_pure _) fun _ => keeps_pure _

theorem stages_sound (node : Node) (time : Float) (duration : Option Float) :
    Keeps R (sound node time duration) :=
  stages_of_keeps (keeps_sound node time duration)

theorem stages_disconnect (id : VoiceId) (node : Node) :
    Keeps R (tryCatch node.disconnect fun e => warn (.stuckVoice id e.message)) :=
  stages_of_keeps (keeps_catch (Backstage.keeps_disconnect node) fun _ => Creates.warned _)

section Emit

variable (hemit : ∀ event, Keeps R (emit k event))
include hemit

theorem stages_countVoices : Keeps R (countVoices emit k) :=
  keeps_bind (keeps_instrument k) fun _ => hemit _

theorem stages_remove (herased : ∀ id, Keeps R (changeInstrument k (·.erase id))) (id : VoiceId) :
    Keeps R (remove emit k id) := by
  refine keeps_bind (keeps_instrument k) fun inst => ?_
  split
  case h_1 => exact keeps_pure _
  case h_2 voice _ =>
      refine keeps_bind (herased id) fun _ => keeps_bind (stages_disconnect id voice.node) fun _ => ?_
      exact keeps_bind (hemit _) fun _ => stages_countVoices hemit

end Emit

theorem stages_track (hregistered : ∀ node, Keeps R (changeInstrument k (·.register node)))
    (hremove : ∀ id, Keeps R (remove emit k id)) (node : Node) : Keeps R (track emit k node) := by
  refine keeps_bind (keeps_instrument k) fun _ => keeps_bind (hregistered node) fun _ => ?_
  refine keeps_bind (stages_of_keeps (Backstage.keeps_changeNode _ _)) fun _ => ?_
  refine keeps_bind keeps_get fun _ => ?_
  split
  · exact keeps_bind (hremove _) fun _ => keeps_pure _
  · exact keeps_bind (stages_of_keeps (Backstage.keeps_changeNode _ _)) fun _ => keeps_pure _

theorem stages_startWith (hstopped : ∀ id, Keeps R (changeInstrument k (·.markStopped id)))
    (htrack : ∀ node, Keeps R (track emit k node)) (hemit : ∀ event, Keeps R (emit k event))
    (play : Play) (time delay duration : Option Float) :
    Keeps R (startWith emit k play time delay duration) := by
  rw [startWith_eq]
  refine keeps_bind (keeps_instrument k) fun inst => ?_
  refine keeps_bind (stages_ready inst play) fun node => keeps_bind (keeps_now _) fun _ => ?_
  refine keeps_bind (stages_steal hstopped _) fun _ => ?_
  refine keeps_bind (htrack node) fun _ => keeps_bind (stages_sound node _ duration) fun _ => ?_
  exact keeps_bind (hemit _) fun _ => keeps_bind (stages_countVoices hemit) fun _ => keeps_pure _

theorem stages_perform {topic : Topic} {tag : String} {reaction : Reaction}
    (hstopped : ∀ id, Keeps R (changeInstrument k (·.markStopped id)))
    (hsubscribe : reaction = .subscribe → Keeps R (observe k topic (.plain (tag ++ "'"))))
    (hplay : ∀ x duration, reaction = .play (some x) duration →
      Keeps R (startWith emit k (.value x) none none duration)) :
    Keeps R (perform emit k topic tag reaction) := by
  have hfailed (cause : Option Error) : Keeps R (hear (.failed tag cause)) :=
    stages_of_keeps (Backstage.keeps_hear fun _ => rfl)
  cases reaction with
  | subscribe => exact hsubscribe rfl
  | play value duration =>
      cases value with
      | none => exact hfailed none
      | some x => exact keeps_catch (keeps_map _ (hplay x duration rfl)) fun e => hfailed (some e)
  | stopAll => exact keeps_catch (stages_stop hstopped none none none) fun e => hfailed (some e)

end Instrument

section Notify

variable (hremove : ∀ k id, Keeps R (Instrument.remove emit k id))
include hremove

theorem Node.stages_ending (bound : Nat) (id : NodeId) : Keeps R (Node.ending emit bound id) := by
  induction bound generalizing id with
  | zero => exact keeps_pure _
  | succ bound ih =>
      rw [ending]
      refine keeps_bind keeps_get fun studio => ?_
      split
      case h_1 => exact keeps_pure _
      case h_2 state _ =>
          refine keeps_ite (keeps_pure _) ?_
          refine keeps_bind (stages_of_keeps (Backstage.keeps_changeNode _ _)) fun _ => ?_
          refine keeps_forM fun listener _ => ?_
          cases listener with
          | whole whole =>
              refine keeps_bind ?_ fun _ => keeps_ite (ih whole) (keeps_pure _)
              refine keeps_bind (stages_of_keeps (Backstage.keeps_changeNode _ _)) fun _ => ?_
              exact keeps_bind keeps_get fun _ => keeps_pure _
          | voice k i => exact hremove k i
          | caller tag reply => exact stages_of_keeps (Backstage.keeps_callBack tag reply)

theorem stages_notify (watcher : Watcher) : Keeps R (notify emit watcher) := by
  cases watcher with
  | node id => exact keeps_bind keeps_get fun _ => Node.stages_ending hremove _ id
  | tag tag => exact stages_of_keeps (Backstage.keeps_hear fun _ => rfl)

end Notify

end Stages

section Clocks

variable {R : Studio → Studio → Prop} [Clocks R] {α : Type} {emit : Instrument.Emit}

theorem clocks_settle (hremove : ∀ k id, Keeps R (Instrument.remove emit k id)) (context : ContextId)
    (rounds : Nat) : Keeps R (settle emit context rounds) := by
  induction rounds with
  | zero => exact keeps_pure _
  | succ rounds ih =>
      rw [settle]
      refine fun s => along_read ?_
      split
      case isTrue => exact along_pure trivial
      case isFalse =>
          refine along_bind (along_modify (Clocks.offstage _ _ (.of_round context))) fun _ t _ _ => ?_
          refine keeps_bind (keeps_forM fun ending _ => ?_) (fun _ => ih) t
          exact keeps_forM fun watcher _ => stages_notify hremove watcher

omit [Clocks R] in
theorem along_emitter {s : Studio} {next : Instrument.Emit → Act α} {ok : α → Studio → Prop}
    (h : Along R (next (Instrument.emitAt s.credit)) s ok) :
    Along R (Instrument.emitter >>= next) s ok := by
  unfold Along Instrument.emitter
  simp only [ends_bind, ends_get, ends_pure]
  exact h

theorem along_advanceTo {s : Studio}
    (hremove : ∀ k id, Keeps R (Instrument.remove (Instrument.emitAt s.credit) k id))
    (context : ContextId) (time : Float) :
    Along R (Act.advanceTo context time) s fun _ _ => True := by
  have hmoves : Along R (setEngine context ((s.engine context).advance time)) s
      fun _ t => t = s.advanced context time :=
    along_modified (Clocks.offstage _ _ (.of_engine context id)) rfl
  refine along_read (along_bind hmoves ?_)
  rintro - t - rfl
  exact along_read (along_emitter (clocks_settle hremove context _ (s.advanced context time)))

end Clocks

-- From whatever studio, it comes to its end.
def Unfailing {α : Type} (act : Act α) : Prop :=
  ∀ s, Ends act s (fun _ _ => True) fun _ _ => False

section Unfailing

variable {α β : Type} {emit : Instrument.Emit}

theorem Unfailing.ends {act : Act α} {R : Studio → Studio → Prop} {s : Studio}
    {ok : α → Studio → Prop} (h : Unfailing act) (halong : Along R act s ok) :
    Ends act s (fun a t => R s t ∧ ok a t) fun _ _ => False :=
  (Ends.and (h s) halong).mono (fun _ _ ht => ht.2) fun _ _ ht => ht.1

theorem Unfailing.ends_ok {act : Act α} {s : Studio} {ok : α → Studio → Prop}
    (h : Unfailing act) (hends : Ends act s ok fun _ _ => True) : Ends act s ok fun _ _ => False :=
  (Ends.and (h s) hends).mono (fun _ _ ht => ht.2) fun _ _ ht => ht.1

theorem unfailing_pure (a : α) : Unfailing (pure a) := fun _ => (ends_pure a).2 trivial

theorem unfailing_modify (f : Studio → Studio) : Unfailing (modify f : Act PUnit) :=
  fun _ => (ends_modify f).2 trivial

theorem unfailing_read {next : Studio → Act α} (h : ∀ s, Unfailing (next s)) :
    Unfailing (get >>= next) := by
  intro s
  rw [ends_bind, ends_get]
  exact h s s

theorem unfailing_bind {act : Act β} {next : β → Act α} (h : Unfailing act)
    (hnext : ∀ b, Unfailing (next b)) : Unfailing (act >>= next) := by
  intro s
  rw [ends_bind]
  exact (h s).mono (fun b t _ => hnext b t) fun _ _ h => h

-- What fails is handled.
theorem unfailing_catch {act : Act α} {handle : Error → Act α} (h : ∀ e, Unfailing (handle e)) :
    Unfailing (tryCatch act handle) := by
  intro s
  rw [ends_catch]
  have hany : Ends act s (fun _ _ => True) fun _ _ => True := by
    unfold Ends
    cases act s <;> trivial
  exact hany.mono (fun _ _ h => h) fun e t _ => h e t

theorem unfailing_forM {act : β → Act PUnit} (h : ∀ b, Unfailing (act b)) :
    ∀ items : List β, Unfailing (items.forM act)
  | [] => unfailing_pure _
  | b :: rest => unfailing_bind (h b) fun _ => unfailing_forM h rest

theorem unfailing_mapM {act : β → Act α} (h : ∀ b, Unfailing (act b)) (items : List β) :
    Unfailing (items.mapM act) := by
  induction items with
  | nil => exact unfailing_pure _
  | cons b rest ih =>
      rw [List.mapM_cons]
      exact unfailing_bind (h b) fun _ => unfailing_bind ih fun _ => unfailing_pure _

namespace Instrument

variable (k : InstrumentId)

theorem unfailing_perform (topic : Topic) (tag : String) (reaction : Reaction) :
    Unfailing (perform emit k topic tag reaction) := by
  cases reaction with
  | subscribe => exact unfailing_modify _
  | play value duration =>
      cases value with
      | none => exact unfailing_modify _
      | some x => exact unfailing_catch fun _ => unfailing_modify _
  | stopAll => exact unfailing_catch fun _ => unfailing_modify _

theorem unfailing_tell (event : Event) (observer : Observer) :
    Unfailing (tell emit k event observer) := by
  refine unfailing_bind (unfailing_modify _) fun _ => ?_
  dsimp only
  split
  · exact unfailing_bind (unfailing_perform k _ _ _) fun _ => unfailing_pure _
  · exact unfailing_bind (unfailing_pure _) fun _ => unfailing_pure _

theorem unfailing_deliver (event : Event) : Unfailing (deliver emit k event) := by
  refine unfailing_bind (unfailing_modify _) fun _ => ?_
  refine unfailing_bind (unfailing_read fun _ => unfailing_pure _) fun _ => ?_
  refine unfailing_bind (unfailing_modify _) fun _ => ?_
  exact unfailing_bind (unfailing_mapM (unfailing_tell k event) _) fun _ => unfailing_modify _

theorem unfailing_emitAt (depth : Nat) (event : Event) : Unfailing (emitAt depth k event) := by
  cases depth <;> exact unfailing_deliver k event

theorem unfailing_remove (depth : Nat) (id : VoiceId) : Unfailing (remove (emitAt depth) k id) := by
  refine unfailing_bind (unfailing_read fun _ => unfailing_pure _) fun _ => ?_
  split
  case h_1 => exact unfailing_pure _
  case h_2 =>
      refine unfailing_bind (unfailing_modify _) fun _ => ?_
      refine unfailing_bind (unfailing_catch fun _ => unfailing_modify _) fun _ => ?_
      refine unfailing_bind (unfailing_emitAt k depth _) fun _ => ?_
      refine unfailing_bind (unfailing_read fun _ => unfailing_pure _) fun _ => ?_
      exact unfailing_emitAt k depth _

end Instrument

end Unfailing

-- Nothing was played on it, and nobody listens.
structure Instrument.Blank (inst : Instrument) : Prop where
  played : inst.played = []
  voices : inst.voices = []
  announcements : inst.announcements = []
  observers : ∀ topic, inst.observers topic = []

theorem Instrument.blank_new (context : ContextId) : (new context).Blank :=
  ⟨rfl, rfl, rfl, fun _ => rfl⟩

theorem Studio.instrument_push (s : Studio) (inst : Instrument) (k : InstrumentId) :
    ({ s with instruments := s.instruments.push inst } : Studio).instrument k =
      if k = s.instruments.size then inst else s.instrument k := by
  simp only [instrument, Array.getElem?_push]
  split <;> rfl

-- What a command does, as far as it concerns instruments.
inductive Command.Staged (s : Studio) : Command → Act Unit → Prop
  | backstage {command : Command} {act : Act Unit} (h : Keeps Backstage act) : Staged s command act
  | add {command : Command} {make : Act Instrument}
      (hmake : Along Backstage make s fun inst _ => inst.Blank) :
      Staged s command (do discard (← make).add)
  | play (k : InstrumentId) (id : NodeId) (time delay duration : Option Float) {node : Node}
      (hk : s.hasInstrument k = true) (hnode : s.node? id = some node) :
      Staged s (.play k id time delay duration)
        (discard (Instrument.start k (.node node) time delay duration))
  | playValue (k : InstrumentId) (x : Float) (time delay duration : Option Float)
      (hk : s.hasInstrument k = true) :
      Staged s (.playValue k x time delay duration)
        (discard (Instrument.start k (.value x) time delay duration))
  | track (k : InstrumentId) (id : NodeId) {node : Node} (hk : s.hasInstrument k = true)
      (hnode : s.node? id = some node) :
      Staged s (.track k id) (do discard (Instrument.track (← Instrument.emitter) k node))
  | stopVoices (k : InstrumentId) (ids : Option (List VoiceId)) (time delay : Option Float) :
      Staged s (.stopVoices k ids time delay) (Instrument.stop k ids time delay)
  | observe (k : InstrumentId) (topic : Topic) (observer : Observer) :
      Staged s (.observe k topic observer) (Instrument.observe k topic observer)
  | advanceTo (context : ContextId) (time : Float) :
      Staged s (.advanceTo context time) (Act.advanceTo context time)
  | advanceBy (context : ContextId) (seconds : Float) :
      Staged s (.advanceBy context seconds) (Act.advanceBy context seconds)

section SetUp

variable (s : Studio) (context : ContextId)

theorem Instrument.blank_master : Along Backstage (master context) s fun inst _ => inst.Blank :=
  along_bind (Crafts.destination (R := Backstage) context s) fun _ _ _ _ =>
    along_pure ⟨rfl, rfl, rfl, fun _ => rfl⟩

theorem Instrument.blank_setUp (master : Bool) (synth : Option Recipe) (destination : Option Node)
    (maxVoices : Nat) : Along Backstage (setUp context master synth destination maxVoices) s
      fun inst _ => inst.Blank := by
  have hrest (base : Instrument) (t : Studio) (h : base.Blank) : Along Backstage
      (pure { base with synth, destination := destination.or base.destination, maxVoices }) t
      fun inst _ => inst.Blank :=
    along_pure ⟨h.played, h.voices, h.announcements, h.observers⟩
  have hnew : Along Backstage (pure (new context)) s fun inst _ => inst.Blank :=
    along_pure (blank_new context)
  unfold setUp
  split
  · exact along_bind (blank_master s context) fun base t _ h => hrest base t h
  · exact along_bind hnew fun base t _ h => hrest base t h

theorem Instrument.blank_sampler (font : Soundfont) (voice : SampleVoice)
    (destination : Option Node) : Along Backstage (sampler context font voice destination) s
      fun inst _ => inst.Blank := by
  cases destination with
  | some node => exact along_pure ⟨rfl, rfl, rfl, fun _ => rfl⟩
  | none =>
      exact along_bind (blank_master s context) fun _ _ _ h =>
        along_pure ⟨h.played, h.voices, h.announcements, h.observers⟩

end SetUp

theorem Command.staged {s : Studio} {command : Command} :
    ∀ act, command.act? s = some act → command.Staged s act := by
  have hback {command : Command} {act : Act Unit} (h : Keeps Backstage act) :
      ∀ x, some act = some x → command.Staged s x := forall_some (.backstage h)
  have hguard {k : InstrumentId} {u : Unit} (h : guard (s.hasInstrument k) = some u) :
      s.hasInstrument k = true := by
    by_contra hk
    simp [guard, hk] at h
  cases command with
  | openContext rate => exact hback (keeps_map _ (Backstage.keeps_openContext rate))
  | make context maker =>
      refine forall_given fun _ _ => forall_given fun act hact => hback ?_
      exact keeps_map _ (maker.keeps_act context (fun b _ => Assembles.built b) act hact)
  | start id time => exact forall_given fun node _ => hback (node.keeps_start time)
  | stop id time => exact forall_given fun node _ => hback (node.keeps_stop time)
  | disconnect id => exact forall_given fun node _ => hback (Backstage.keeps_disconnect node)
  | connect id socket =>
      exact forall_given fun node _ => forall_given fun target _ => hback (node.keeps_connect target)
  | setBuffer id => exact forall_given fun node _ => hback node.keeps_setBuffer
  | move contour id param time =>
      refine forall_given fun node _ => hback ?_
      refine keeps_bind (keeps_bind (node.keeps_findParam param) fun _ => keeps_pure _) fun _ => ?_
      exact Contour.keeps_schedule (R := Backstage) _ _ _ _ _
  | onEnded id tag reply =>
      exact forall_given fun node _ => forall_given fun reply _ =>
        hback (Backstage.keeps_onEnded node tag reply)
  | openBuilder context =>
      exact forall_given fun _ _ => hback (keeps_map _ (Drafts.opened context))
  | instrument context master synth destination maxVoices =>
      refine forall_given fun _ _ => forall_given fun destination _ => forall_some ?_
      exact .add (Instrument.blank_setUp s context master synth destination maxVoices)
  | child parent synth maxVoices =>
      refine forall_given fun _ _ => forall_some ?_
      exact @Staged.add s _ (pure ((s.instrument parent).child synth maxVoices))
        (along_pure ⟨rfl, rfl, rfl, fun _ => rfl⟩)
  | sampler context font voice destination =>
      refine forall_given fun _ _ => forall_given fun destination _ => forall_some ?_
      exact .add (Instrument.blank_sampler s context font voice destination)
  | play k id time delay duration =>
      exact forall_given fun _ hk => forall_given fun node hid =>
        forall_some (.play k id time delay duration (hguard hk) hid)
  | playValue k x time delay duration =>
      exact forall_given fun _ hk => forall_some (.playValue k x time delay duration (hguard hk))
  | track k id =>
      exact forall_given fun _ hk => forall_given fun node hid =>
        forall_some (.track k id (hguard hk) hid)
  | stopVoices k ids time delay => exact forall_some (.stopVoices k ids time delay)
  | observe k topic observer => exact forall_some (.observe k topic observer)
  | advanceTo context time => exact forall_some (.advanceTo context time)
  | advanceBy context seconds => exact forall_some (.advanceBy context seconds)
  | create context kind =>
      exact forall_given fun _ _ => hback (keeps_map _ (Creates.created context kind))
  | request context request => exact hback (Wires.request context request)
  | silence context host => exact forall_given fun _ _ => hback (Backstage.keeps_cutHost context host)
  | watch context host tag => exact hback (Creates.watched context host (.tag tag))
  | plug context host param value =>
      exact forall_given fun drive _ => hback (keeps_map _ (Drive.keeps_plug context host param drive))
  | schedule contour context host param time =>
      exact hback (contour.keeps_schedule context host param time)
  | clearCalls context => exact hback (Backstage.keeps_setEngine context fun _ => .of_eq rfl)

end Patchbay
