import Patchbay.Proofs.Session.Basic

namespace Patchbay

open Act

variable {s : Studio}

theorem mem_ifGiven {α β : Type} {find : α → Option β} {a? : Option α} {b? : Option β}
    (h : ifGiven find a? = some b?) {b : β} (hb : b ∈ b?) : ∃ a, find a = some b := by
  cases a? with
  | none =>
      cases h
      cases hb
  | some a =>
      obtain ⟨b', hb', rfl⟩ := Option.map_eq_some_iff.1 h
      obtain rfl : b' = b := Option.some_inj.1 hb
      exact ⟨a, hb'⟩

theorem mem_mapM {α β : Type} {find : α → Option β} {as : List α} {bs : List β}
    (h : as.mapM find = some bs) {b : β} (hb : b ∈ bs) : ∃ a, find a = some b := by
  induction as generalizing bs with
  | nil =>
      obtain rfl : [] = bs := Option.some_inj.1 h
      cases hb
  | cons a rest ih =>
      simp only [List.mapM_cons, Option.bind_eq_bind, Option.bind_eq_some_iff] at h
      obtain ⟨first, hfirst, others, hothers, heq⟩ := h
      obtain rfl : first :: others = bs := Option.some_inj.1 heq
      rcases List.mem_cons.1 hb with rfl | hb
      · exact ⟨a, hfirst⟩
      · exact ih hothers hb

section Known

variable (hs : s.ledger.Sound 0)
include hs

theorem Studio.offers_of_node {id : NodeId} {node : Node} (h : s.node? id = some node) :
    s.ledger.Offers 0 node ∧ node.id = id := by
  have hnode : (s.ledger.fate id).node = some node := by
    simp only [node?, Option.map_eq_some_iff] at h
    obtain ⟨state, hstate, rfl⟩ := h
    simp only [ledger, hstate]
    rfl
  have hid := (hs.node id node hnode).1
  exact ⟨hs.offers (show s.ledger.Knows node by rw [Ledger.Knows, hid]; exact hnode), hid⟩

theorem Knob.offered {knob : Knob} {drive : Drive} (h : knob.drive? s = some drive) :
    drive.Offered s.ledger 0 := by
  cases knob with
  | fixed x =>
      cases h
      trivial
  | node id =>
      obtain ⟨node, hnode, rfl⟩ := Option.map_eq_some_iff.1 h
      exact (Studio.offers_of_node hs hnode).1

theorem Reply.known_of_find {named : Reply NodeId} {reply : Reply Node}
    (h : named.find s.node? = some reply) : reply.Known s.ledger := by
  induction named generalizing reply with
  | done =>
      cases h
      trivial
  | stop id next ih =>
      obtain ⟨node, hnode, h⟩ := Option.bind_eq_some_iff.1 h
      obtain ⟨next', hnext, h⟩ := Option.bind_eq_some_iff.1 h
      cases h
      exact ⟨(Studio.offers_of_node hs hnode).1.known, ih hnext⟩
  | ask id tag reply next ihReply ihNext =>
      obtain ⟨node, hnode, h⟩ := Option.bind_eq_some_iff.1 h
      obtain ⟨reply', hreply, h⟩ := Option.bind_eq_some_iff.1 h
      obtain ⟨next', hnext, h⟩ := Option.bind_eq_some_iff.1 h
      cases h
      exact ⟨(Studio.offers_of_node hs hnode).1.known, ihReply hreply, ihNext hnext⟩

theorem Knob.offered_of_given {knob? : Option Knob} {drive? : Option Drive}
    (h : ifGiven (Knob.drive? s) knob? = some drive?) : ∀ drive ∈ drive?, drive.Offered s.ledger 0 := by
  intro drive hdrive
  obtain ⟨knob, hknob⟩ := mem_ifGiven h hdrive
  exact Knob.offered hs hknob

theorem Studio.offers_of_given {id? : Option NodeId} {node? : Option Node}
    (h : ifGiven s.node? id? = some node?) : ∀ node ∈ node?, s.ledger.Offers 0 node := by
  intro node hnode
  obtain ⟨id, hid⟩ := mem_ifGiven h hnode
  exact (offers_of_node hs hid).1

theorem Studio.offers_of_list {ids : List NodeId} {nodes : List Node}
    (h : ids.mapM s.node? = some nodes) : ∀ node ∈ nodes, s.ledger.Offers 0 node := by
  intro node hnode
  obtain ⟨id, hid⟩ := mem_mapM h hnode
  exact (offers_of_node hs hid).1

theorem Studio.stocks {b : BuilderId} (hb : b < s.builders.size) : s.ledger.Stocks 0 b := by
  have hat : s.ledger.builders[b]? = some s.builders[b] := Array.getElem?_eq_getElem hb
  have hstocked := hs.builder b _ hat
  exact ⟨_, hat, hs.ready hstocked.opened, fun entry hentry => hs.offers (hstocked.memo entry hentry)⟩

-- A patch that is read and built by a builder at hand.
theorem offering_patchWith {builder : BuilderId} (hb : builder < s.builders.size) (source : String) :
    Offering 0 (do Builder.build builder (← Act.reading (Patch.parse source))) s := by
  have hstocks : s.ledger.Stocks 0 builder := Studio.stocks hs hb
  have hread : Builds 0 (reading (Patch.parse source)) s fun _ _ => True := keeps_reading _ s
  exact Builder.builds_next hstocks hread fun patch _ _ hstocks _ =>
    Builder.offering_build patch hstocks

end Known

theorem offering_plate {context : ContextId} (hready : s.ledger.Ready 0 context)
    (name : Option String) : Offering 0 (Plate.node <$> Plate.install context name) s :=
  along_map (Plate.builds_install hready) fun _ _ hnode => hnode

open Node in
theorem Maker.offering {context : ContextId} {maker : Maker} (hs : s.ledger.Sound 0)
    (hc : context < s.engines.size) :
    ∀ act, maker.act? s context = some act → Offering 0 act s := by
  have hready : s.ledger.Ready 0 context := hs.ready hc
  have hnode {id : NodeId} {node : Node} (h : s.node? id = some node) : s.ledger.Offers 0 node :=
    (Studio.offers_of_node hs h).1
  cases maker with
  | gain level =>
      exact forall_given fun _ hlevel => forall_some (offering_gain hready (Knob.offered hs hlevel))
  | gainOfDecibels decibels => exact forall_some (offering_gain hready trivial)
  | bypass => exact forall_some (offering_bypass hready)
  | constant value => exact forall_some (offering_constant hready)
  | signal value =>
      refine forall_given fun _ hvalue => forall_some ?_
      exact offering_signal hready (Knob.offered hs hvalue)
  | scaled factor id =>
      refine forall_given fun _ hfactor => forall_given fun _ hid => forall_some ?_
      exact offering_scaled (Knob.offered hs hfactor) (hnode hid)
  | spanning low high id =>
      exact forall_given fun _ hid => forall_some (offering_spanning (hnode hid))
  | oscillator waveform frequency detune =>
      refine forall_given fun _ hfrequency => forall_given fun _ hdetune => forall_some ?_
      exact offering_oscillator hready (Knob.offered hs hfrequency) (Knob.offered_of_given hs hdetune)
  | lfo waveform rate amplitude => exact forall_some (offering_lfo hready)
  | bank ratios settings => exact forall_some (offering_bank hready)
  | filter type frequency q detune =>
      refine forall_given fun _ hfrequency => forall_given fun _ hq => ?_
      refine forall_given fun _ hdetune => forall_some ?_
      exact offering_filter hready (Knob.offered hs hfrequency) (Knob.offered_of_given hs hq)
        (Knob.offered_of_given hs hdetune)
  | filterOf settings => exact forall_some (offering_filterOf hready)
  | delay time =>
      exact forall_given fun _ htime => forall_some (offering_delay hready (Knob.offered hs htime))
  | feedback amount id => exact forall_given fun _ hid => forall_some (offering_feedback (hnode hid))
  | echo time tone amount =>
      refine forall_given fun _ htime => forall_given fun _ htone => forall_some ?_
      exact offering_echo hready (Knob.offered hs htime) (Studio.offers_of_given hs htone)
  | mix effect wet normalize =>
      exact forall_given fun _ hid => forall_some (offering_mix (hnode hid))
  | tremolo rate waveform => exact forall_some (offering_tremolo hready)
  | convolver impulse normalize => exact forall_some (offering_convolver hready)
  | reverb settings => exact forall_some (offering_reverb hready)
  | playback buffer looping detune =>
      refine forall_given fun _ hdetune => forall_some ?_
      exact offering_playback hready (Knob.offered_of_given hs hdetune)
  | noise duration looping => exact forall_some (offering_noise hready)
  | shaper attack release => exact forall_some (offering_shaper hready)
  | percussive attack decay => exact forall_some (offering_percussive hready)
  | swell attack hold decay high low => exact forall_some (offering_swell hready)
  | adsr settings => exact forall_some (offering_adsr hready)
  | sweep frequency octaves settings => exact forall_some (offering_sweep hready)
  | destination => exact forall_some (offering_destination hready)
  | series head tail =>
      refine forall_given fun _ hhead => forall_given fun _ htail => forall_some ?_
      exact offering_inSeries (hnode hhead) (Studio.offers_of_list hs htail)
  | parallel head tail =>
      refine forall_given fun _ hhead => forall_given fun _ htail => forall_some ?_
      exact offering_inParallel (hnode hhead) (Studio.offers_of_list hs htail)
  | wrap inner others =>
      refine forall_given fun _ hinner => forall_given fun _ hothers => forall_some ?_
      exact offering_wrap (hnode hinner) (Studio.offers_of_list hs hothers)
  | subtractive settings source =>
      refine forall_given fun _ hsource => forall_some ?_
      exact offering_subtractive hready (Studio.offers_of_given hs hsource)
  | organ registration frequency => exact forall_some (offering_organ hready)
  | patch source => exact forall_some (Patch.offering_build hready)
  | patchWith builder source =>
      intro act hact
      obtain ⟨hb, hact⟩ := Option.ite_none_right_eq_some.1 hact
      cases hact
      exact offering_patchWith hs hb source
  | plate name => exact forall_some (offering_plate hready name)

-- Whatever is still owed stays so, and nothing more is.
abbrev Carries {α : Type} (act : Act α) (s : Studio) : Prop := Along (Pays 0 []) act s fun _ _ => True

theorem carries_of_builds {α : Type} {act : Act α} {ok : α → Ledger → Prop} (h : Builds 0 act s ok) :
    Along (Pays 0 []) act s fun a t => ok a t.ledger :=
  Ends.mono h (fun _ _ h => ⟨.of_building h.1, h.2⟩) fun _ _ h => .of_building h

theorem carries_discard {α : Type} {act : Act α} {ok : α → Studio → Prop}
    (h : Along (Pays 0 []) act s ok) : Carries (discard act) s :=
  along_map h fun _ _ _ => trivial

theorem carries_after {α : Type} {act : Act α} (h : Carries act s) (past : Past) :
    Moves 0 ⟨s.ledger, [], past⟩ ⟨(act.after s).ledger, [], past⟩ :=
  after_of_ends (Ends.mono h (fun _ _ h => h.1 [] past) fun _ _ h => h [] past)

theorem Studio.ledger_openContext (rate : Float) :
    ({ s with engines := s.engines.push (.new rate) } : Studio).ledger = s.ledger.openContext := by
  ext1
  case contexts => simp [ledger, Ledger.openContext]
  case host =>
      funext c
      simp only [ledger, Ledger.openContext, Array.getElem?_push, Function.update_apply]
      split
      case isTrue =>
          funext host
          cases host with
          | zero => rfl
          | succ host => simp [Engine.hosts, Engine.new, Engine.destination]
      case isFalse => rfl
  all_goals rfl

theorem carries_openContext (rate : Float) : Carries (Act.openContext rate) s := by
  have hnone : s.ledger.host s.ledger.contexts = fun _ => none := by
    simp [Studio.ledger]
  unfold Carries Along Act.openContext
  rw [ends_modifyGet]
  refine ⟨.of_building ?_, trivial⟩
  rw [Building, Studio.ledger_openContext]
  exact .single (.openContext hnone)

theorem carries_openBuilder {context : ContextId} (hc : context < s.engines.size) :
    Carries (Builder.new context) s := by
  unfold Carries Along Builder.new
  rw [ends_modifyGet]
  exact ⟨.of_building (.single (.builder context hc)), trivial⟩

-- A new instrument has played nothing.
theorem carries_add {inst : Instrument} (hc : inst.context < s.engines.size)
    (hroster : inst.roster = .new inst.context) : Carries inst.add s := by
  have hadd : ({ s with instruments := s.instruments.push inst } : Studio).ledger =
      { s.ledger with
        roster := Function.update s.ledger.roster s.instruments.size (some (.new inst.context)) } := by
    ext1
    case roster =>
        funext k
        simp only [Studio.ledger, Array.getElem?_push, Function.update_apply]
        split
        case isTrue => rw [Option.map_some, hroster]
        case isFalse => rfl
    all_goals rfl
  unfold Carries Along Instrument.add
  rw [ends_modifyGet]
  refine ⟨.of_building ?_, trivial⟩
  rw [Building, hadd]
  exact .single (.instrument _ _ hc (by simp [Studio.ledger]))

theorem carries_watch (context : ContextId) (host : HostId) (tag : String) :
    Carries (do setEngine context ((← engine context).watch host (.tag tag))) s := by
  unfold Carries Along setEngine engine
  simp only [ends_bind, ends_get, ends_pure, ends_modify]
  refine ⟨.of_building ?_, trivial⟩
  rw [Building, Studio.ledger_watch]
  exact .single (.watch context host tag)

theorem carries_emitter {α : Type} {next : Instrument.Emit → Act α} {ok : α → Studio → Prop}
    (h : ∀ emit, Emits 0 emit → Along (Pays 0 []) (next emit) s ok) :
    Along (Pays 0 []) (Instrument.emitter >>= next) s ok := by
  unfold Along Instrument.emitter
  simp only [ends_bind, ends_get, ends_pure]
  exact h _ (emits_emitAt _)

-- An instrument that is set up and added.
theorem carries_setUp {context : ContextId} {act : Act Instrument} (hc : context < s.engines.size)
    (h : Along (Pays 0 []) act s fun inst _ => inst.roster = .new context) :
    Carries (do discard (← act).add) s := by
  refine along_bind h fun inst t hst hinst => carries_discard (carries_add ?_ ?_)
  · rw [show inst.context = context from congrArg Roster.context hinst]
    exact Nat.lt_of_lt_of_le hc hst.grows.contexts
  · rw [hinst, show inst.context = context from congrArg Roster.context hinst]

theorem along_master {context : ContextId} (hs : s.ledger.Sound 0) (hc : context < s.engines.size) :
    Along (Pays 0 []) (Instrument.master context) s fun inst _ => inst.roster = .new context :=
  along_bind (carries_of_builds (Node.offering_destination (hs.ready hc))) fun _ _ _ _ =>
    along_pure rfl

theorem carries_clearCalls (context : ContextId) : Carries (Act.clearCalls context) s := by
  unfold Carries Along Act.clearCalls setEngine engine
  simp only [ends_bind, ends_get, ends_pure, ends_modify]
  exact ⟨.of_ledger (s.ledger_setEngine_eq context rfl), trivial⟩

section Commands

theorem Studio.lt_of_hasContext {c : ContextId} {u : Unit} (h : guard (s.hasContext c) = some u) :
    c < s.engines.size := by
  simpa [hasContext, guard] using h

theorem Studio.lt_of_hasInstrument {k : InstrumentId} {u : Unit}
    (h : guard (s.hasInstrument k) = some u) : k < s.instruments.size := by
  simpa [hasInstrument, guard] using h

theorem Studio.isSome_roster {k : InstrumentId} (hk : k < s.instruments.size) :
    (s.ledger.roster k).isSome := by
  simpa [ledger] using hk

theorem carries_move (contour : Contour) (node : Node) (param : Param) (time : Float) :
    Carries (do (← Motion.ofNode contour node param).run time) s := by
  refine keeps_bind (keeps_bind (Node.keeps_findParam node param) fun _ => keeps_pure _) ?_ s
  exact fun motion => motion.keeps_run time

theorem carries_instrument {context : ContextId} (hs : s.ledger.Sound 0)
    (hc : context < s.engines.size) (master : Bool) (synth : Option Recipe)
    (destination : Option Node) (maxVoices : Nat) :
    Carries (do discard (← Instrument.setUp context master synth destination maxVoices).add) s := by
  refine carries_setUp hc ?_
  cases master with
  | true => exact along_bind (along_master hs hc) fun _ _ _ hbase => along_pure hbase
  | false => exact along_pure rfl

theorem carries_child {parent : InstrumentId} (hs : s.ledger.Sound 0)
    (hparent : parent < s.instruments.size) (synth : Option Recipe) (maxVoices : Nat) :
    Carries (discard ((s.instrument parent).child synth maxVoices).add) s := by
  have hat : s.ledger.roster parent = some (s.instrument parent).roster := by
    simp [Studio.ledger, Studio.instrument, Array.getElem?_eq_getElem hparent]
  exact carries_discard (carries_add (hs.roster parent _ hat).opened rfl)

theorem carries_sampler {context : ContextId} (hs : s.ledger.Sound 0)
    (hc : context < s.engines.size) (font : Soundfont) (voice : SampleVoice)
    (destination : Option Node) :
    Carries (do discard (← Instrument.sampler context font voice destination).add) s := by
  refine carries_setUp hc ?_
  cases destination with
  | some node => exact along_pure rfl
  | none => exact along_bind (along_master hs hc) fun _ _ _ hbase => along_pure hbase

theorem carries_start {k : InstrumentId} {play : Play} {time delay duration : Option Float}
    (hs : s.ledger.Sound 0) (hk : k < s.instruments.size) (hplay : play.Known s.ledger) :
    Carries (Instrument.start k play time delay duration) s :=
  carries_emitter fun _ hemit => along_startWith hs hemit (Studio.isSome_roster hk) hplay

theorem carries_track {k : InstrumentId} {node : Node} (hs : s.ledger.Sound 0)
    (hk : k < s.instruments.size) (hnode : s.ledger.Knows node) :
    Carries (do discard (Instrument.track (← Instrument.emitter) k node)) s := by
  obtain ⟨r, hr⟩ := Option.isSome_iff_exists.1 (Studio.isSome_roster hk)
  exact carries_emitter fun _ hemit => carries_discard (settles_track hs hemit hr hnode).along

theorem carries_observe (k : InstrumentId) (topic : Topic) (observer : Observer) :
    Carries (Instrument.observe k topic observer) s :=
  keeps_modify (fun t => .of_ledger (t.ledger_changeInstrument_eq k
    (f := fun i => i.observing topic (i.observers topic ++ [observer])) fun _ => rfl)) s

theorem carries_advanceBy (hs : s.ledger.Sound 0) (context : ContextId) (seconds : Float) :
    Carries (Act.advanceBy context seconds) s :=
  along_bind (keeps_now context s) fun _ _ hst _ =>
    (settles_advanceTo context _ (hst.sound hs)).along

-- Every command but those that have something disconnected.
theorem Command.carries {command : Command} (hs : s.ledger.Sound 0)
    (hplain : ∀ past, command.record s past = past) :
    ∀ act, command.act? s = some act → Carries act s := by
  have hnode {id : NodeId} {node : Node} (h : s.node? id = some node) : s.ledger.Knows node :=
    (Studio.offers_of_node hs h).1.known
  cases command with
  | openContext rate => exact forall_some (carries_discard (carries_openContext rate))
  | make context maker =>
      refine forall_given fun _ hc => forall_given fun making hmaking => forall_some ?_
      have hmade := Maker.offering hs (Studio.lt_of_hasContext hc) making hmaking
      exact carries_discard (carries_of_builds hmade)
  | start id time => exact forall_given fun node _ => forall_some (node.keeps_start time s)
  | stop id time => exact forall_given fun node _ => forall_some (node.keeps_stop time s)
  | disconnect id =>
      refine forall_given fun node hid => ?_
      simpa [record, hid] using congrArg Past.dropped (hplain ⟨[], []⟩)
  | connect id socket =>
      refine forall_given fun node _ => forall_given fun target _ => forall_some ?_
      exact node.keeps_connect target s
  | setBuffer id => exact forall_given fun node _ => forall_some (node.keeps_setBuffer s)
  | move contour id param time =>
      exact forall_given fun node _ => forall_some (carries_move contour node param time)
  | onEnded id tag reply =>
      refine forall_given fun node hid => forall_given fun reply hreply => forall_some ?_
      exact (Node.settles_onEnded tag (hnode hid) (Reply.known_of_find hs hreply)).along
  | openBuilder context =>
      refine forall_given fun _ hc => forall_some ?_
      exact carries_discard (carries_openBuilder (Studio.lt_of_hasContext hc))
  | instrument context master synth destination maxVoices =>
      refine forall_given fun _ hc => forall_given fun destination _ => forall_some ?_
      exact carries_instrument hs (Studio.lt_of_hasContext hc) master synth destination maxVoices
  | child parent synth maxVoices =>
      refine forall_given fun _ hk => forall_some ?_
      exact carries_child hs (Studio.lt_of_hasInstrument hk) synth maxVoices
  | sampler context font voice destination =>
      refine forall_given fun _ hc => forall_given fun destination _ => forall_some ?_
      exact carries_sampler hs (Studio.lt_of_hasContext hc) font voice destination
  | play k id time delay duration =>
      refine forall_given fun _ hk => forall_given fun node hid => forall_some ?_
      have hplay : (Play.node node).Known s.ledger := hnode hid
      exact carries_discard (carries_start hs (Studio.lt_of_hasInstrument hk) hplay)
  | playValue k x time delay duration =>
      refine forall_given fun _ hk => forall_some ?_
      have hplay : (Play.value x).Known s.ledger := trivial
      exact carries_discard (carries_start hs (Studio.lt_of_hasInstrument hk) hplay)
  | track k id =>
      refine forall_given fun _ hk => forall_given fun node hid => forall_some ?_
      exact carries_track hs (Studio.lt_of_hasInstrument hk) (hnode hid)
  | stopVoices k ids time delay => exact forall_some (Instrument.keeps_stop k ids time delay s)
  | observe k topic observer => exact forall_some (carries_observe k topic observer)
  | advanceTo context time => exact forall_some (settles_advanceTo context time hs).along
  | advanceBy context seconds => exact forall_some (carries_advanceBy hs context seconds)
  | create context kind =>
      refine forall_given fun _ hc => forall_some ?_
      have hready := hs.ready (Studio.lt_of_hasContext hc)
      exact carries_discard (carries_of_builds (builds_createHost kind hready))
  | request context call => exact forall_some (Plays.request context call s)
  | silence context host => simpa [record] using congrArg Past.silenced (hplain ⟨[], []⟩)
  | watch context host tag => exact forall_some (carries_watch context host tag)
  | plug context host param value =>
      refine forall_given fun drive _ => forall_some ?_
      exact carries_discard (Drive.keeps_plug context host param drive s)
  | schedule contour context host param time =>
      exact forall_some (contour.keeps_schedule context host param time s)
  | clearCalls context => exact forall_some (carries_clearCalls context)

end Commands

-- What holds at the start and across every move holds between the commands of a session.
structure Moment.Lawful (m : Moment) : Prop where
  sound : m.ledger.Sound 0
  join : Join m
  registry : Registry m
  callers : Callers m
  cuts : Cuts m

theorem Moves.lawful {m m' : Moment} (h : Moves 0 m m') (hm : m.Lawful) : m'.Lawful where
  sound := h.sound hm.sound
  join := h.join hm.join
  registry := h.registry hm.join hm.registry
  callers := h.callers hm.callers
  cuts := by
    induction h with
    | refl => exact hm.cuts
    | tail hs h ih =>
        exact h.cuts (Moves.sound hs hm.sound) (Moves.registry hs hm.join hm.registry) ih

namespace Session

theorem moves_disconnect {node : Node} (hs : s.ledger.Sound 0) (hnode : s.ledger.Knows node)
    (past : Past) : Moves 0 ⟨s.ledger, [], past⟩
      ⟨(node.disconnect.after s).ledger, [], { past with dropped := past.dropped ++ [node] }⟩ := by
  apply after_of_ends (P := fun t => Moves 0 ⟨s.ledger, [], past⟩
    ⟨t.ledger, [], { past with dropped := past.dropped ++ [node] }⟩)
  exact Ends.mono (Node.settles_disconnect hs hnode)
    (fun _ t h => .head (.drop node hnode) (h [] _)) fun _ _ h => h.elim

theorem moves_silence {context : ContextId} {host : HostId} (hhost : s.ledger.HasHost context host)
    (past : Past) : Moves 0 ⟨s.ledger, [], past⟩
      ⟨((Act.host context (·.disconnect host)).after s).ledger, [],
        { past with silenced := past.silenced ++ [(context, host)] }⟩ := by
  apply after_of_ends (P := fun t => Moves 0 ⟨s.ledger, [], past⟩
    ⟨t.ledger, [], { past with silenced := past.silenced ++ [(context, host)] }⟩)
  exact Ends.mono (settles_cutHost hhost) (fun _ t h => .head (.dropHost context host hhost) (h [] _))
    fun _ _ h => h.elim

theorem moves_perform {session : Session} (hs : session.studio.ledger.Sound 0) (command : Command) :
    Moves 0 session.moment (session.perform command).moment := by
  obtain ⟨s, past⟩ := session
  unfold perform
  dsimp only
  split
  case h_2 => exact .refl
  case h_1 act hact =>
      cases command with
      | disconnect id =>
          obtain ⟨node, hid, hact⟩ := Option.bind_eq_some_iff.1 hact
          cases hact
          have hmoves := moves_disconnect hs (Studio.offers_of_node hs hid).1.known past
          simpa only [moment, Command.record, hid, Option.toList_some] using hmoves
      | silence context host =>
          obtain ⟨_, hhost, hact⟩ := Option.bind_eq_some_iff.1 hact
          cases hact
          have hhost : s.ledger.HasHost context host := by
            simpa [guard, Ledger.HasHost, Option.isSome_iff_ne_none] using hhost
          exact moves_silence hhost past
      | _ => exact carries_after (Command.carries hs (fun _ => rfl) act hact) past

-- A new studio has one context with nothing but its final output.
theorem host_new {rate : Float} {c : ContextId} {h : HostId} {fate : HostFate}
    (hfate : (new rate).moment.ledger.host c h = some fate) : fate = .fresh none := by
  simp only [moment, new, Studio.ledger, Studio.new] at hfate
  cases c with
  | zero =>
      cases h with
      | zero => exact (Option.some_inj.1 hfate).symm
      | succ h => simp [Engine.hosts, Engine.new] at hfate
  | succ c => simp at hfate

theorem lawful_new (rate : Float) : (new rate).moment.Lawful := by
  have hended (c : ContextId) (h : HostId) : ¬(new rate).moment.ledger.HostEnded c h := by
    rw [Ledger.HostEnded]
    cases hfate : (new rate).moment.ledger.host c h with
    | none => simp
    | some fate => simp [host_new hfate, HostFate.fresh]
  have hcut (c : ContextId) (h : HostId) : ¬(new rate).moment.ledger.HostCut c h := by
    rw [Ledger.HostCut]
    cases hfate : (new rate).moment.ledger.host c h with
    | none => simp
    | some fate => simp [host_new hfate, HostFate.fresh]
  have hwatching (c : ContextId) (h : HostId) : (new rate).moment.ledger.watching c h = [] := by
    rw [Ledger.watching]
    cases hfate : (new rate).moment.ledger.host c h with
    | none => rfl
    | some fate => simp [host_new hfate, HostFate.fresh]
  have hroot (node : Node) : ¬(new rate).moment.IsRoot node := by
    rintro (hmem | ⟨k, i, hnode, -⟩)
    · cases hmem
    · cases hnode
  constructor
  case sound =>
      refine ⟨Nat.zero_le _, Nat.one_pos, fun c hc => ?_, fun id node hnode => ?_, fun id w hw => ?_,
        fun c h f id hf hid => ?_, fun k r hr => ?_, fun b builder hb => ?_⟩
      · obtain rfl : c = 0 := Nat.lt_one_iff.1 hc
        rfl
      · cases hnode
      · cases hw
      · rw [host_new hf] at hid
        cases hid
      · cases hr
      · cases hb
  case join =>
      refine ⟨fun _ h => ?_, fun _ _ h => ?_, fun id h => ?_, fun _ _ => rfl, fun _ _ h => ?_,
        fun _ _ _ h => ?_, fun _ _ h => ?_, fun _ _ _ h => ?_, fun _ _ h => ?_, fun _ _ _ h => ?_,
        fun c host id h => ?_⟩
      case refine_3 => rcases h with h | h <;> cases h
      case refine_10 =>
          rw [hwatching] at h
          cases h
      all_goals cases h
  case registry =>
      refine ⟨fun _ => List.nil_sublist _, fun _ _ _ => rfl, fun _ _ _ h => ?_, fun _ _ => rfl⟩
      cases h
  case callers =>
      refine ⟨fun _ _ h => ?_, fun _ _ _ => rfl, fun _ => rfl⟩
      cases h
  case cuts =>
      refine ⟨fun node h => (hroot node h).elim, fun _ h => ?_, fun _ h => ?_, fun _ h => ?_,
        fun _ _ h => ?_, fun _ _ h => ?_, fun _ h => ?_, fun _ h => ?_, fun c host h => ?_⟩
      case refine_8 => exact h.elim (fun h => (hcut c host h).elim) fun h => by cases h
      all_goals cases h

theorem moves_foldl {session : Session} (hs : session.studio.ledger.Sound 0)
    (commands : List Command) : Moves 0 session.moment (commands.foldl perform session).moment := by
  induction commands generalizing session with
  | nil => exact .refl
  | cons command rest ih =>
      have hmoves := moves_perform hs command
      exact hmoves.trans (ih (hmoves.sound hs))

-- At every point of every run.
theorem lawful_run (rate : Float) (commands : List Command) : (run rate commands).moment.Lawful :=
  (moves_foldl (lawful_new rate).sound commands).lawful (lawful_new rate)

theorem moves_run (rate : Float) (commands more : List Command) :
    Moves 0 (run rate commands).moment (run rate (commands ++ more)).moment := by
  rw [run, run, List.foldl_append]
  exact moves_foldl (lawful_run rate commands).sound more

end Session

end Patchbay
