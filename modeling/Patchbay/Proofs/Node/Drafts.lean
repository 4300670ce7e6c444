import Patchbay.Proofs.Ledger.Offers
import Patchbay.Proofs.Builder.Parts

namespace Patchbay

open Act

-- Holds across the steps that make a node.
class Creates (R : Studio → Studio → Prop) : Prop extends Connects R where
  created : ∀ context kind, Keeps R (createHost context kind)
  enrolled : ∀ context label duration release make, (∀ info, (make info).info = info) →
    Keeps R (Node.enrol context label duration release make)
  watched : ∀ context host watcher,
    Keeps R (do setEngine context ((← engine context).watch host watcher))
  warned : ∀ warning, Keeps R (warn warning)

-- Holds across those that read a patch and build it, too.
class Composes (R : Studio → Studio → Prop) : Prop extends Creates R where
  read : ∀ {α : Type} (read : EStateM Error (List Warning) α), Keeps R (reading read)
  opened : ∀ context, Keeps R (Builder.new context)
  memoized : ∀ builder key node, Keeps R (Builder.memoize builder key node)

-- Holds across the few makers that all others are made of.
class Crafts (R : Studio → Studio → Prop) : Prop extends IsPreorder Studio R where
  ofKind : ∀ context kind params, Keeps R (Node.ofKind context kind params)
  shaper : ∀ context attack release, Keeps R (Node.shaper context attack release)
  destination : ∀ context, Keeps R (Node.destination context)
  inSeries : ∀ head tail, Keeps R (Node.inSeries head tail)
  inParallel : ∀ first rest, Keeps R (Node.inParallel first rest)
  wrap : ∀ inner others, Keeps R (Node.wrap inner others)
  wired : ∀ node target, Keeps R (Node.connect node target)
  warned : ∀ warning, Keeps R (warn warning)

-- Holds besides across every patch that is built with a builder of its own.
class Drafts (R : Studio → Studio → Prop) : Prop extends Crafts R where
  read : ∀ {α : Type} (read : EStateM Error (List Warning) α), Keeps R (reading read)
  opened : ∀ context, Keeps R (Builder.new context)
  patched : ∀ context source, Keeps R (Patch.build context source)

-- Holds besides across every patch that is built with a builder at hand.
class Assembles (R : Studio → Studio → Prop) : Prop extends Drafts R where
  built : ∀ builder patch, Keeps R (Builder.build builder patch)

-- What the makers keep to all comes under one finer relation.
theorem Crafts.of_finer {Q R : Studio → Studio → Prop} [Crafts Q] [IsPreorder Studio R]
    (h : ∀ s t, Q s t → R s t) : Crafts R where
  ofKind context kind params := (Crafts.ofKind context kind params).mono h
  shaper context attack release := (Crafts.shaper context attack release).mono h
  destination context := (Crafts.destination context).mono h
  inSeries head tail := (Crafts.inSeries head tail).mono h
  inParallel first rest := (Crafts.inParallel first rest).mono h
  wrap inner others := (Crafts.wrap inner others).mono h
  wired node target := (Crafts.wired node target).mono h
  warned warning := (Crafts.warned warning).mono h

theorem Drafts.of_finer {Q R : Studio → Studio → Prop} [Drafts Q] [IsPreorder Studio R]
    (h : ∀ s t, Q s t → R s t) : Drafts R where
  __ := Crafts.of_finer h
  read read := (Drafts.read read).mono h
  opened context := (Drafts.opened context).mono h
  patched context source := (Drafts.patched context source).mono h

variable {R : Studio → Studio → Prop} {context : ContextId}

section Creates

variable [Creates R]

namespace Node

theorem keeps_ofKind (kind : NodeKind) (params : List (Param × Option Drive)) :
    Keeps R (ofKind context kind params) := by
  refine keeps_bind (Creates.created context kind) fun host => ?_
  have hplugs : Keeps R (bind context host kind params) := fun s =>
    (along_plugs params s).mono fun _ _ _ _ => trivial
  refine keeps_bind hplugs fun modulators => ?_
  refine keeps_bind (Creates.enrolled _ _ _ _ _ fun _ => rfl) fun node => ?_
  refine keeps_ite ?_ (keeps_pure node)
  have hwatched := keeps_bind (Creates.watched (R := R) context host (.node node.id))
    fun _ => keeps_pure node
  simpa only [bind_assoc] using hwatched

theorem keeps_inSeries (head : Node) (tail : List Node) : Keeps R (inSeries head tail) := by
  unfold inSeries
  split
  · exact keeps_pure head
  · exact keeps_bind (keeps_chain head tail) fun _ => Creates.enrolled _ _ _ _ _ fun _ => rfl

theorem keeps_inParallel (first : Node) (rest : List Node) : Keeps R (inParallel first rest) := by
  refine keeps_bind (Creates.created _ .gain) fun input => ?_
  refine keeps_bind (Creates.created _ .gain) fun output => ?_
  refine keeps_bind (Connects.setParam _ input .gain 1) fun _ => ?_
  refine keeps_bind (Connects.setParam _ output .gain 1) fun _ => ?_
  refine keeps_bind (keeps_forM fun branch _ => keeps_joinBranch branch) fun _ => ?_
  exact Creates.enrolled _ _ _ _ _ fun _ => rfl

theorem keeps_wrap (inner : Node) (others : List Node) : Keeps R (wrap inner others) := by
  unfold wrap
  refine keeps_ite (keeps_pure inner) ?_
  exact keeps_bind (Creates.enrolled _ _ _ _ _ fun _ => rfl) fun node =>
    keeps_inheritConnected inner node

theorem keeps_shaper (attack : Contour) (release : Option Contour) :
    Keeps R (shaper context attack release) := by
  refine keeps_bind (Creates.created context .gain) fun host => ?_
  refine keeps_bind (Connects.setParam context host .gain 0) fun _ => ?_
  exact Creates.enrolled _ _ _ _ _ fun _ => rfl

end Node

instance : Crafts R where
  ofKind _ := Node.keeps_ofKind
  shaper _ := Node.keeps_shaper
  destination _ := Creates.enrolled _ _ _ _ _ fun _ => rfl
  inSeries := Node.keeps_inSeries
  inParallel := Node.keeps_inParallel
  wrap := Node.keeps_wrap
  wired := Node.keeps_connect
  warned := Creates.warned

end Creates

section Crafts

variable [Crafts R]

namespace Node

theorem keeps_playback (buffer : Option Buffer) (looping : Bool) (detune : Option Drive) :
    Keeps R (playback context buffer looping detune) := by
  unfold playback
  refine keeps_ite ?_ (Crafts.ofKind _ _ _)
  exact keeps_bind (Crafts.warned _) fun _ => Crafts.ofKind _ _ _

theorem keeps_noise (duration : Option Float) (looping : Bool) :
    Keeps R (noise context duration looping) :=
  keeps_bind (keeps_engine context) fun _ => keeps_playback _ _ _

theorem keeps_gain (level : Drive) : Keeps R (gain context level) := Crafts.ofKind _ _ _

theorem keeps_constant (value : Float) : Keeps R (constant context value) :=
  keeps_bind (keeps_engine context) fun _ => keeps_playback _ _ _

theorem keeps_signal (value : Drive) : Keeps R (signal context value) :=
  keeps_bind (keeps_constant 1) fun _ => keeps_bind (keeps_gain value) fun _ => Crafts.inSeries _ _

theorem keeps_scaled (factor : Drive) (node : Node) : Keeps R (scaled factor node) :=
  keeps_bind (keeps_gain factor) fun _ => Crafts.inSeries _ _

theorem keeps_spanning (low high : Float) (node : Node) : Keeps R (spanning low high node) := by
  have hrest (fed : Node) : Keeps R (do
      let floor ← constant node.context low
      inParallel floor [← scaled (.fixed (high - low)) fed]) :=
    keeps_bind (keeps_constant low) fun _ =>
      keeps_bind (keeps_scaled _ _) fun _ => Crafts.inParallel _ _
  refine keeps_bind keeps_get fun studio => keeps_ite ?_ (keeps_bind (keeps_pure node) hrest)
  exact keeps_bind (keeps_constant 1) fun _ => keeps_bind (Crafts.inSeries _ _) hrest

theorem keeps_oscillator (waveform : Waveform) (frequency : Drive) (detune : Option Drive) :
    Keeps R (oscillator context waveform frequency detune) := Crafts.ofKind _ _ _

theorem keeps_lfo (waveform : Waveform) (rate amplitude : Float) :
    Keeps R (lfo context waveform rate amplitude) :=
  keeps_bind (keeps_oscillator _ _ _) fun _ => keeps_scaled _ _

theorem keeps_partials (settings : BankSettings) (i : Nat) (ratios : List Float) :
    Keeps R (partials context settings i ratios) := by
  induction ratios generalizing i with
  | nil => exact keeps_pure _
  | cons ratio rest ih =>
      refine keeps_bind (keeps_oscillator _ _ _) fun _ => keeps_bind (keeps_gain _) fun _ => ?_
      refine keeps_bind (Crafts.inSeries _ _) fun _ => ?_
      exact keeps_bind (ih (i + 1)) fun _ => keeps_pure _

theorem keeps_bank (ratios : List Float) (settings : BankSettings) :
    Keeps R (bank context ratios settings) := by
  refine keeps_bind (keeps_partials settings 0 ratios) fun voices => ?_
  cases voices with
  | nil => exact keeps_throw _
  | cons first rest =>
      refine keeps_bind (Crafts.inParallel first rest) fun _ => ?_
      exact keeps_bind (keeps_gain _) fun _ => Crafts.inSeries _ _

theorem keeps_filter (type : FilterType) (frequency : Drive) (q detune : Option Drive) :
    Keeps R (filter context type frequency q detune) := Crafts.ofKind _ _ _

theorem keeps_percussive (attack decay : Option Float) :
    Keeps R (percussive context attack decay) :=
  keeps_bind (keeps_ofExcept _ _) fun _ => Crafts.shaper _ _ _

theorem keeps_swell (attack hold decay high low : Float) :
    Keeps R (swell context attack hold decay high low) :=
  keeps_bind (keeps_ofExcept _ _) fun _ => Crafts.shaper _ _ _

theorem keeps_adsr (settings : Adsr) : Keeps R (adsr context settings) :=
  keeps_bind (keeps_ofExcept _ _) fun _ =>
    keeps_bind (keeps_ofExcept _ _) fun _ => Crafts.shaper _ _ _

theorem keeps_sweep (frequency octaves : Float) (settings : Adsr) :
    Keeps R (sweep context frequency octaves settings) :=
  keeps_bind (keeps_adsr settings) fun _ => keeps_spanning _ _ _

theorem keeps_delay (time : Drive) : Keeps R (delay context time) := Crafts.ofKind _ _ _

theorem keeps_feedback (amount : Float) (node : Node) : Keeps R (feedback amount node) := by
  refine keeps_bind (keeps_gain _) fun back => keeps_bind (Crafts.wired _ _) fun _ => ?_
  exact keeps_bind (Crafts.wired _ _) fun _ => Crafts.wrap node [back]

theorem keeps_echo (time : Drive) (filter : Option Node) (amount : Float) :
    Keeps R (echo context time filter amount) := by
  refine keeps_bind (keeps_delay time) fun line => ?_
  have hrest (color : Node) : Keeps R (do
      let again ← inSeries color [← gain context (.fixed amount)]
      line.connect (.node again)
      again.connect (.node line)
      wrap line [again]) := by
    refine keeps_bind (keeps_gain _) fun _ => keeps_bind (Crafts.inSeries _ _) fun again => ?_
    refine keeps_bind (Crafts.wired _ _) fun _ => ?_
    exact keeps_bind (Crafts.wired _ _) fun _ => Crafts.wrap line [again]
  cases filter with
  | none => exact keeps_bind (keeps_gain _) hrest
  | some filter => exact keeps_bind (keeps_pure filter) hrest

theorem keeps_mix (effect : Node) (wet : Option Float) (normalize : Bool) :
    Keeps R (mix effect wet normalize) := by
  refine keeps_bind (keeps_gain _) fun _ => keeps_bind (Crafts.inSeries _ _) fun _ => ?_
  exact keeps_bind (keeps_gain _) fun _ => Crafts.inParallel _ _

theorem keeps_tremolo (rate : Float) (waveform : Waveform) :
    Keeps R (tremolo context rate waveform) :=
  keeps_bind (keeps_oscillator _ _ _) fun _ => keeps_gain _

theorem keeps_convolver (impulse : Option Buffer) (normalize : Bool) :
    Keeps R (convolver context impulse normalize) := by
  unfold convolver
  refine keeps_ite ?_ (Crafts.ofKind _ _ _)
  exact keeps_bind (Crafts.warned _) fun _ => Crafts.ofKind _ _ _

theorem keeps_room (duration : Float) (decay : Option Float) (backwards : Bool) :
    Keeps R (room context duration decay backwards) :=
  keeps_bind (keeps_engine context) fun _ => keeps_convolver _ _

theorem keeps_reverb (settings : ReverbSettings) : Keeps R (reverb context settings) :=
  keeps_bind (keeps_room _ _ _) fun _ => keeps_mix _ _ _

end Node

theorem Patch.keeps_assemble (patch : Patch) (nodes : List Node) :
    Keeps R (patch.assemble context nodes) := by
  cases patch with
  | connect route patches =>
      cases nodes with
      | nil => exact Node.keeps_gain _
      | cons first rest =>
          cases route with
          | serial => exact Crafts.inSeries first rest
          | parallel => exact Crafts.inParallel first rest
  | gain level => exact Node.keeps_gain _
  | oscillator waveform frequency detune => exact Node.keeps_oscillator _ _ _
  | biquadFilter type frequency q detune => exact Node.keeps_filter _ _ _ _
  | envelope attack release => exact Crafts.shaper _ _ _
  | delay time feedback =>
      cases feedback with
      | none => exact Node.keeps_delay _
      | some amount => exact Node.keeps_echo _ none amount
  | constant value => exact Node.keeps_constant _
  | noise duration looping => exact Node.keeps_noise _ _
  | convolver duration decay reverse => exact Node.keeps_room _ _ _
  | memoize id patch =>
      cases nodes with
      | nil => exact Node.keeps_gain _
      | cons node rest => exact keeps_pure node
  | destination => exact Crafts.destination _

namespace Builder

variable {b : BuilderId}

theorem keeps_state : Keeps R (state b) := keeps_bind keeps_get fun _ => keeps_pure _

theorem keeps_buildAll {patches : List Patch} (h : ∀ patch ∈ patches, Keeps R (build b patch)) :
    Keeps R (buildAll b patches) := by
  induction patches with
  | nil => exact keeps_pure _
  | cons patch rest ih =>
      rw [buildAll]
      refine keeps_bind (h patch List.mem_cons_self) fun node => ?_
      exact keeps_bind (ih fun other hother => h other (List.mem_cons_of_mem _ hother))
        fun nodes => keeps_pure (node :: nodes)

theorem keeps_build (hmemo : ∀ key node, Keeps R (memoize b key node)) (patch : Patch) :
    Keeps R (build b patch) := by
  induction patch using Patch.induct with
  | step patch ih =>
      cases hkey : patch.key? with
      | none =>
          rw [build_eq hkey]
          refine keeps_bind (keeps_state (R := R)) fun _ => ?_
          exact keeps_bind (keeps_buildAll ih) fun nodes => patch.keeps_assemble nodes
      | some id =>
          obtain ⟨body, rfl⟩ := Patch.eq_of_key hkey
          rw [build_memoize]
          refine keeps_ite (keeps_throw _) (keeps_bind keeps_state fun builder => ?_)
          split
          · exact keeps_pure _
          · refine keeps_bind (ih body (by simp [Patch.parts])) fun node => ?_
            exact keeps_bind (hmemo id node) fun _ => keeps_pure node

end Builder

theorem SweptFilter.keeps_build (filter : SweptFilter) (frequency : Float) :
    Keeps R (filter.build context frequency) := by
  unfold build
  split
  case h_1 => exact keeps_pure none
  case h_2 cutoff hcutoff =>
      have hrest (drive : Drive) : Keeps R (do
          return some (← Node.filter context filter.type drive (filter.q.map .fixed) none)) :=
        keeps_bind (Node.keeps_filter _ _ _ _) fun _ => keeps_pure _
      cases filter.envelope with
      | none => exact keeps_bind (keeps_pure _) hrest
      | some envelope => exact keeps_bind (keeps_map _ (Node.keeps_sweep _ _ _)) hrest

namespace Node

theorem keeps_subtractive (settings : SubtractiveSettings) (source : Option Node) :
    Keeps R (subtractive context settings source) := by
  have hrest (source : Node) : Keeps R (do
      let envelope ← adsr context settings.envelope
      let filter ← settings.filter.build context settings.frequency
      let level ← if settings.gain != 1 then some <$> gain context (.fixed settings.gain)
        else pure none
      inSeries source ([envelope] ++ filter.toList ++ level.toList)) := by
    refine keeps_bind (keeps_adsr _) fun envelope => ?_
    refine keeps_bind (SweptFilter.keeps_build _ _) fun filter => ?_
    dsimp only
    split
    · exact keeps_bind (keeps_map _ (keeps_gain _)) fun _ => Crafts.inSeries _ _
    · exact keeps_bind (keeps_pure none) fun _ => Crafts.inSeries _ _
  unfold subtractive
  cases source with
  | none => exact keeps_bind (keeps_oscillator _ _ _) hrest
  | some source => exact keeps_bind (keeps_pure source) hrest

theorem keeps_pluck (frequency : Float) : Keeps R (pluck context frequency) :=
  keeps_bind (keeps_oscillator _ _ _) fun _ =>
    keeps_bind (keeps_percussive _ _) fun _ => Crafts.inSeries _ _

theorem keeps_sampled (font : Soundfont) (voice : SampleVoice) (note : Nat) :
    Keeps R (sampled context font voice note) := by
  have hrest : Keeps R (do
      let source ← playback context (font.buffer? note) false none
      let filter ← filterOf context voice.filter
      let envelope ← adsr context voice.envelope
      inSeries source [filter, envelope, ← gain context (.fixed voice.gain)]) := by
    refine keeps_bind (keeps_playback _ _ _) fun _ => keeps_bind (keeps_filter _ _ _ _) fun _ => ?_
    refine keeps_bind (keeps_adsr _) fun _ => keeps_bind (keeps_gain _) fun _ => ?_
    exact Crafts.inSeries _ _
  unfold sampled
  exact keeps_ite (keeps_bind (Crafts.warned _) fun _ => hrest) hrest

end Node

end Crafts

instance [Composes R] : Assembles R where
  read := Composes.read
  opened := Composes.opened
  patched context _ := keeps_bind (Composes.read _) fun patch =>
    keeps_bind (Composes.opened context) fun b => Builder.keeps_build (Composes.memoized b) patch
  built b := Builder.keeps_build (Composes.memoized b)

theorem Recipe.keeps_build [Drafts R] (recipe : Recipe) (value : Float) :
    Keeps R (recipe.build context value) := by
  cases recipe with
  | sine => exact Node.keeps_oscillator _ _ _
  | pluck => exact Node.keeps_pluck value
  | adsr settings =>
      refine keeps_bind (Node.keeps_oscillator _ _ _) fun _ => ?_
      exact keeps_bind (Node.keeps_adsr settings) fun _ => Crafts.inSeries _ _
  | subtractive settings => exact Node.keeps_subtractive _ none
  | organ registration => exact Node.keeps_bank _ _
  | patch source => exact Drafts.patched _ source
  | sampler font voice => exact Node.keeps_sampled font voice _

end Patchbay
