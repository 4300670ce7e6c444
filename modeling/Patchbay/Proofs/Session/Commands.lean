import Mathlib.Data.List.Induction
import Patchbay.Proofs.Session.Requests

namespace Patchbay

open Act

variable {R : Studio → Studio → Prop} {s : Studio}

-- The builder at hand that builds a patch for it.
def Maker.builder? : Maker → Option BuilderId
  | .patchWith builder _ => some builder
  | _ => none

open Node in
theorem Maker.keeps_act [Drafts R] (context : ContextId) (maker : Maker)
    (hbuilt : ∀ b, maker.builder? = some b → ∀ patch, Keeps R (Builder.build b patch)) :
    ∀ act, maker.act? s context = some act → Keeps R act := by
  cases maker with
  | gain level => exact forall_given fun _ _ => forall_some (keeps_gain _)
  | gainOfDecibels decibels => exact forall_some (keeps_gain _)
  | bypass => exact forall_some (keeps_gain _)
  | constant value => exact forall_some (keeps_constant value)
  | signal value => exact forall_given fun _ _ => forall_some (keeps_signal _)
  | scaled factor node =>
      exact forall_given fun _ _ => forall_given fun _ _ => forall_some (keeps_scaled _ _)
  | spanning low high node => exact forall_given fun _ _ => forall_some (keeps_spanning _ _ _)
  | oscillator waveform frequency detune =>
      refine forall_given fun _ _ => forall_given fun _ _ => ?_
      exact forall_some (keeps_oscillator waveform _ _)
  | lfo waveform rate amplitude => exact forall_some (keeps_lfo waveform rate amplitude)
  | bank ratios settings => exact forall_some (keeps_bank ratios settings)
  | filter type frequency q detune =>
      refine forall_given fun _ _ => forall_given fun _ _ => forall_given fun _ _ => ?_
      exact forall_some (keeps_filter type _ _ _)
  | filterOf settings => exact forall_some (keeps_filter _ _ _ _)
  | delay time => exact forall_given fun _ _ => forall_some (keeps_delay _)
  | feedback amount node => exact forall_given fun _ _ => forall_some (keeps_feedback amount _)
  | echo time filter amount =>
      exact forall_given fun _ _ => forall_given fun _ _ => forall_some (keeps_echo _ _ amount)
  | mix effect wet normalize =>
      exact forall_given fun _ _ => forall_some (keeps_mix _ wet normalize)
  | tremolo rate waveform => exact forall_some (keeps_tremolo rate waveform)
  | convolver impulse normalize => exact forall_some (keeps_convolver impulse normalize)
  | reverb settings => exact forall_some (keeps_reverb settings)
  | playback buffer looping detune =>
      exact forall_given fun _ _ => forall_some (keeps_playback buffer looping _)
  | noise duration looping => exact forall_some (keeps_noise duration looping)
  | shaper attack release => exact forall_some (Crafts.shaper context attack release)
  | percussive attack decay => exact forall_some (keeps_percussive attack decay)
  | swell attack hold decay high low => exact forall_some (keeps_swell attack hold decay high low)
  | adsr settings => exact forall_some (keeps_adsr settings)
  | sweep frequency octaves settings => exact forall_some (keeps_sweep frequency octaves settings)
  | destination => exact forall_some (Crafts.destination context)
  | series head tail =>
      exact forall_given fun _ _ => forall_given fun _ _ => forall_some (Crafts.inSeries _ _)
  | parallel first rest =>
      exact forall_given fun _ _ => forall_given fun _ _ => forall_some (Crafts.inParallel _ _)
  | wrap inner others =>
      exact forall_given fun _ _ => forall_given fun _ _ => forall_some (Crafts.wrap _ _)
  | subtractive settings source =>
      exact forall_given fun _ _ => forall_some (keeps_subtractive settings _)
  | organ registration frequency => exact forall_some (keeps_bank _ _)
  | patch source => exact forall_some (Drafts.patched context source)
  | patchWith builder source =>
      intro act hact
      simp only [act?] at hact
      split at hact
      case isFalse => cases hact
      case isTrue =>
          cases hact
          exact keeps_bind (Drafts.read _) fun patch => hbuilt builder rfl patch
  | plate name =>
      refine forall_some (keeps_map _ (keeps_bind (keeps_convolver _ _) fun _ => keeps_pure _))

-- The calls of a host itself.
def Command.isDirect : Command → Bool
  | .create _ _ | .request _ _ | .silence _ _ | .watch _ _ _ | .plug _ _ _ _ | .schedule _ _ _ _ _
  | .clearCalls _ => true
  | _ => false

def Command.builder? : Command → Option BuilderId
  | .make _ maker => maker.builder?
  | _ => none

-- Whatever it starts or stops itself is at times that are admitted.
def Command.Paced (R : Studio → Studio → Prop) (admits : Studio → Float → Prop) (s : Studio) :
    Command → Prop
  | .start _ time | .stop _ time => admits s time
  | .play _ _ time delay _ | .playValue _ _ time delay _ | .stopVoices _ _ time delay =>
    Punctual R admits s time delay
  | _ => True

-- At whatever times, if all are admitted.
theorem Command.paced (command : Command) (s : Studio) : command.Paced R (fun _ _ => True) s := by
  cases command <;> first | trivial | exact fun _ _ _ _ => trivial

theorem along_performing {α : Type} {act : Act α} (hs : s.ledger.Sound 0)
    (h : Performing R act s) : Along R act s fun _ _ => True :=
  Ends.mono h (fun _ _ ht => ⟨(ht.1 hs).2.2, trivial⟩) fun _ _ ht => (ht hs).2.2

theorem keeps_add (huntouched : ∀ s t, Untouched s t → R s t) (inst : Instrument) :
    Keeps R inst.add := by
  intro s
  unfold Along Instrument.add
  rw [ends_modifyGet]
  exact ⟨huntouched s _ (.of_eq rfl rfl rfl), trivial⟩

section Setup

variable [Crafts R]

theorem keeps_setUp (context : ContextId) (master : Bool) (synth : Option Recipe)
    (destination : Option Node) (maxVoices : Nat) :
    Keeps R (Instrument.setUp context master synth destination maxVoices) := by
  unfold Instrument.setUp
  split
  · exact keeps_bind (keeps_bind (Crafts.destination context) fun _ => keeps_pure _)
      fun _ => keeps_pure _
  · exact keeps_bind (keeps_pure _) fun _ => keeps_pure _

theorem keeps_sampler (context : ContextId) (font : Soundfont) (voice : SampleVoice)
    (destination : Option Node) : Keeps R (Instrument.sampler context font voice destination) := by
  cases destination with
  | some node => exact keeps_bind (keeps_pure _) fun _ => keeps_pure _
  | none =>
      exact keeps_bind (keeps_bind (Crafts.destination context) fun _ => keeps_pure _)
        fun _ => keeps_pure _

end Setup

-- What holds across nodes and instruments at their pace holds across commands that keep to it, if
-- it holds across the patches that their builders build and across what they do to the clock.
theorem Command.paces {admits : Studio → Float → Prop} [Paces R admits] {command : Command}
    (hs : s.ledger.Sound 0) (hdirect : command.isDirect = false)
    (hpaced : command.Paced R admits s)
    (hbuilt : ∀ b, command.builder? = some b → ∀ patch, Keeps R (Builder.build b patch))
    (hadvanced : ∀ c time, command.clock? s = some (c, time) → R s (s.advanced c time)) :
    ∀ act, command.act? s = some act → Along R act s fun _ _ => True := by
  have hnode {id : NodeId} {node : Node} (h : s.node? id = some node) : s.ledger.Knows node :=
    (Studio.offers_of_node hs h).1.known
  have hstarted {α : Type} {next : Instrument.Emit → Act α}
      (h : ∀ emit, (∀ k event, Keeps (Soundly R) (emit k event)) → Performing R (next emit) s) :
      Along R (discard (Instrument.emitter >>= next)) s fun _ _ => True :=
    along_map (along_performing hs (performing_emitter h)) fun _ _ h => h
  have hadd (inst : Instrument) : Keeps R inst.add := keeps_add Paces.untouched inst
  cases command with
  | openContext rate => exact forall_some (along_map (Paces.openContext s rate hs) fun _ _ h => h)
  | make context maker =>
      refine forall_given fun _ _ => forall_given fun act hact => forall_some ?_
      exact keeps_map _ (maker.keeps_act context hbuilt act hact) s
  | start id time =>
      exact forall_given fun node hid => forall_some (Paces.start s node time hs (hnode hid) hpaced)
  | stop id time =>
      exact forall_given fun node hid => forall_some (Paces.stop s node time hs (hnode hid) hpaced)
  | disconnect id =>
      exact forall_given fun node hid => forall_some (Paces.disconnect s node hs (hnode hid))
  | connect id socket =>
      refine forall_given fun node _ => forall_given fun target _ => forall_some ?_
      exact node.keeps_connect target s
  | setBuffer id => exact forall_given fun node _ => forall_some (node.keeps_setBuffer s)
  | move contour id param time =>
      refine forall_given fun node _ => forall_some ?_
      refine keeps_bind (keeps_bind (node.keeps_findParam param) fun _ => keeps_pure _) ?_ s
      exact fun motion => Paces.curve _ _ _ _ _
  | onEnded id tag reply =>
      refine forall_given fun node hid => forall_given fun reply hreply => forall_some ?_
      exact along_performing hs
        (Node.performing_onEnded tag hs (hnode hid) (Reply.known_of_find hs hreply))
  | openBuilder context =>
      refine forall_given fun _ _ => forall_some ?_
      exact keeps_map _ (Drafts.opened context) s
  | instrument context master synth destination maxVoices =>
      refine forall_given fun _ _ => forall_given fun destination _ => forall_some ?_
      exact keeps_bind (keeps_setUp _ _ _ _ _) (fun _ => keeps_map _ (hadd _)) s
  | child parent synth maxVoices =>
      exact forall_given fun _ _ => forall_some (keeps_map _ (hadd _) s)
  | sampler context font voice destination =>
      refine forall_given fun _ _ => forall_given fun destination _ => forall_some ?_
      exact keeps_bind (keeps_sampler _ _ _ _) (fun _ => keeps_map _ (hadd _)) s
  | play k id time delay duration =>
      refine forall_given fun _ _ => forall_given fun node hid => forall_some ?_
      exact hstarted fun emit hemit =>
        performing_startWith hemit k (.node node) hs (hnode hid) hpaced
  | playValue k x time delay duration =>
      refine forall_given fun _ _ => forall_some ?_
      exact hstarted fun emit hemit =>
        performing_startWith hemit k (.value x) hs trivial hpaced
  | track k id =>
      refine forall_given fun _ _ => forall_given fun node hid => forall_some ?_
      have htrack := performing_emitter (R := R) fun emit hemit =>
        along_map (f := fun _ => ()) (performing_track hemit k hs (hnode hid)) fun _ _ _ => trivial
      exact along_performing hs htrack
  | stopVoices k ids time delay =>
      exact forall_some (along_performing hs (performing_stopVoices k hs hpaced))
  | observe k topic observer =>
      refine forall_some (keeps_modify (f := fun studio => { studio with
        instruments := studio.instruments.modify k fun i =>
          i.observing topic (i.observers topic ++ [observer]) }) (fun t => ?_) s)
      exact Paces.untouched t _ (.of_eq rfl rfl rfl)
  | advanceTo context time =>
      exact forall_some (along_performing hs
        (performing_advanceTo context time (hadvanced context time rfl)))
  | advanceBy context seconds =>
      refine forall_some (along_now (along_performing hs ?_))
      exact performing_advanceTo context _ (hadvanced context _ rfl)
  | create | request | silence | watch | plug | schedule | clearCalls => cases hdirect

-- Whatever holds across builders and at all times holds across every command.
theorem Command.performs [Performs R] {command : Command} (hs : s.ledger.Sound 0)
    (hdirect : command.isDirect = false) :
    ∀ act, command.act? s = some act → Along R act s fun _ _ => True := by
  refine Command.paces hs hdirect (command.paced s) (fun b _ => Assembles.built b) fun c time _ => ?_
  exact Performs.unmoved s _ (.of_engine c (fun _ => rfl) rfl)

theorem Command.keeps_direct [Creates R] [Wires R] {command : Command}
    (hsilence : ∀ context host, Keeps R (Act.host context (·.disconnect host)))
    (hclear : ∀ context, Keeps R (Act.clearCalls context)) (hdirect : command.isDirect = true) :
    ∀ act, command.act? s = some act → Keeps R act := by
  cases command with
  | create context kind =>
      exact forall_given fun _ _ => forall_some (keeps_map _ (Creates.created context kind))
  | request context request => exact forall_some (Wires.request context request)
  | silence context host => exact forall_given fun _ _ => forall_some (hsilence context host)
  | watch context host tag => exact forall_some (Creates.watched context host (.tag tag))
  | plug context host param value =>
      exact forall_given fun drive _ =>
        forall_some (keeps_map _ (Drive.keeps_plug context host param drive))
  | schedule contour context host param time =>
      exact forall_some (contour.keeps_schedule context host param time)
  | clearCalls context => exact forall_some (hclear context)
  | _ => cases hdirect

-- What holds before it holds after it.
def Preserves (P : Studio → Prop) (s t : Studio) : Prop := P s → P t

instance {P : Studio → Prop} : IsPreorder Studio (Preserves P) where
  refl _ := id
  trans _ _ _ h h' := h' ∘ h

namespace Session

variable {P : Studio → Prop}

-- What a new studio has and every command that is allowed leaves in place.
theorem invariant (allowed : Command → Prop) (rate : Float) {commands : List Command}
    (hnew : P (.new rate))
    (hstep : ∀ s : Studio, s.ledger.Sound 0 → ∀ command, allowed command →
      ∀ act, command.act? s = some act → Along (Preserves P) act s fun _ _ => True)
    (hallowed : ∀ command ∈ commands, allowed command) : P (run rate commands).studio := by
  induction commands using List.reverseRecOn with
  | nil => exact hnew
  | append_singleton commands command ih =>
      have hbefore : P (run rate commands).studio :=
        ih fun other hother => hallowed other (List.mem_append_left _ hother)
      have hs := (lawful_run rate commands).sound
      have hcommand := hallowed command (by simp)
      rw [run_concat, perform]
      split
      case h_2 => exact hbefore
      case h_1 act hact =>
          refine after_of_ends (P := P) (Ends.mono (hstep _ hs command hcommand act hact) ?_ ?_)
          · exact fun _ _ h => h.1 hbefore
          · exact fun _ _ h => h hbefore

-- What nodes and instruments leave in place, as long as nobody calls a host itself.
theorem invariant_of_performs [Performs (Preserves P)] (rate : Float) {commands : List Command}
    (hnew : P (.new rate)) (hdirect : ∀ command ∈ commands, command.isDirect = false) :
    P (run rate commands).studio :=
  invariant (fun command => command.isDirect = false) rate hnew
    (fun _ hs _ hcommand => Command.performs hs hcommand) hdirect

end Session

end Patchbay
