import Patchbay.Proofs.Studio.Outcome
import Patchbay.Patch.Build

namespace Patchbay

@[simp] def Control.parts : Control → List Patch
  | .value _ => []
  | .node patch => [patch]

@[simp] def Control.partsIfGiven : Option Control → List Patch
  | none => []
  | some control => control.parts

namespace Patch

def parts : Patch → List Patch
  | .connect _ patches => patches
  | .gain level => level.parts
  | .oscillator _ frequency detune => frequency.parts ++ Control.partsIfGiven detune
  | .biquadFilter _ frequency q detune =>
    frequency.parts ++ (Control.partsIfGiven q ++ Control.partsIfGiven detune)
  | .delay time _ => time.parts
  | .memoize _ patch => [patch]
  | .envelope _ _ | .constant _ | .noise _ _ | .convolver _ _ _ | .destination => []

-- The id that it is memoized under.
def key? : Patch → Option String
  | .memoize id _ => some id
  | _ => none

theorem eq_of_key {patch : Patch} {id : String} (h : patch.key? = some id) :
    ∃ body, patch = .memoize id body := by
  cases patch <;> cases h
  exact ⟨_, rfl⟩

theorem sizeOf_control {part : Patch} {control : Control} (h : part ∈ control.parts) :
    sizeOf part < sizeOf control := by
  cases control with
  | value x => cases h
  | node patch =>
      obtain rfl := List.mem_singleton.1 h
      simp

theorem sizeOf_given {part : Patch} {control : Option Control}
    (h : part ∈ Control.partsIfGiven control) : sizeOf part < sizeOf control := by
  cases control with
  | none => cases h
  | some control =>
      have hsize := sizeOf_control h
      simp only [Option.some.sizeOf_spec]
      omega

theorem sizeOf_part {part patch : Patch} (h : part ∈ patch.parts) : sizeOf part < sizeOf patch := by
  cases patch with
  | connect route patches =>
      have hsize : sizeOf part < sizeOf patches := List.sizeOf_lt_of_mem h
      simp only [connect.sizeOf_spec]
      omega
  | gain level =>
      have hsize := sizeOf_control h
      simp only [gain.sizeOf_spec]
      omega
  | oscillator waveform frequency detune =>
      simp only [oscillator.sizeOf_spec]
      rcases List.mem_append.1 h with h | h
      · have hsize := sizeOf_control h
        omega
      · have hsize := sizeOf_given h
        omega
  | biquadFilter type frequency q detune =>
      simp only [biquadFilter.sizeOf_spec]
      rcases List.mem_append.1 h with h | h
      · have hsize := sizeOf_control h
        omega
      · rcases List.mem_append.1 h with h | h
        · have hsize := sizeOf_given h
          omega
        · have hsize := sizeOf_given h
          omega
  | delay time feedback =>
      have hsize := sizeOf_control h
      simp only [delay.sizeOf_spec]
      omega
  | memoize id patch =>
      obtain rfl := List.mem_singleton.1 h
      simp only [memoize.sizeOf_spec]
      omega
  | envelope | constant | noise | convolver | destination => cases h

-- What holds of a patch whenever it holds of its parts holds of every patch.
theorem induct {motive : Patch → Prop}
    (step : ∀ patch, (∀ part ∈ patch.parts, motive part) → motive patch) (patch : Patch) :
    motive patch :=
  step patch fun part _ => induct step part
termination_by sizeOf patch
decreasing_by exact sizeOf_part ‹_›

-- A patch, or one within a part of it.
inductive Within (inner : Patch) : Patch → Prop
  | self : Within inner inner
  | part {patch part : Patch} (hpart : part ∈ patch.parts) (h : Within inner part) :
    Within inner patch

theorem Within.eq_of_leaf {inner patch : Patch} (h : inner.Within patch) (hleaf : patch.parts = []) :
    inner = patch := by
  cases h with
  | self => rfl
  | part hpart _ => simp [hleaf] at hpart

end Patch

-- The drive of a setting, and the nodes that are left for the settings after it.
@[simp] def Control.draw : Control → List Node → Drive × List Node
  | .value x, nodes => (.fixed x, nodes)
  | .node _, first :: rest => (.source first, rest)
  | .node _, [] => (.fixed 0, [])

@[simp] def Control.drawIfGiven : Option Control → List Node → Option Drive × List Node
  | none, nodes => (none, nodes)
  | some control, nodes => (some (control.draw nodes).1, (control.draw nodes).2)

-- A patch out of the nodes of its parts.
def Patch.assemble (context : ContextId) : Patch → List Node → Act Node
  | .connect _ _, [] | .memoize _ _, [] => Node.bypass context
  | .connect .serial _, first :: rest => Node.inSeries first rest
  | .connect .parallel _, first :: rest => Node.inParallel first rest
  | .gain level, nodes => Node.gain context (level.draw nodes).1
  | .oscillator waveform frequency detune, nodes =>
    let (frequency, nodes) := frequency.draw nodes
    Node.oscillator context waveform frequency (Control.drawIfGiven detune nodes).1
  | .biquadFilter type frequency q detune, nodes =>
    let (frequency, nodes) := frequency.draw nodes
    let (q, nodes) := Control.drawIfGiven q nodes
    Node.filter context type frequency q (Control.drawIfGiven detune nodes).1
  | .envelope attack release, _ => Node.shaper context attack release
  | .delay time none, nodes => Node.delay context (time.draw nodes).1
  | .delay time (some amount), nodes => Node.echo context (time.draw nodes).1 none amount
  | .constant value, _ => Node.constant context value
  | .noise duration looping, _ => Node.noise context (some duration) looping
  | .convolver duration decay reverse, _ => Node.room context duration decay reverse
  | .memoize _ _, node :: _ => pure node
  | .destination, _ => Node.destination context

namespace Builder

variable {b : BuilderId}

theorem build_eq {patch : Patch} (h : patch.key? = none) : build b patch = (do
    let context := (← state b).context
    patch.assemble context (← buildAll b patch.parts)) := by
  cases patch with
  | connect route patches =>
      rw [build]
      refine bind_congr fun builder => bind_congr fun nodes => ?_
      cases nodes <;> cases route <;> rfl
  | gain level =>
      rw [build]
      cases level <;> simp [Patch.parts, Patch.assemble, buildAll, drive]
  | oscillator waveform frequency detune =>
      rw [build]
      rcases frequency with _ | _ <;> rcases detune with _ | _ | _ <;>
        simp [Patch.parts, Patch.assemble, buildAll, drive, driveIfGiven]
  | biquadFilter type frequency q detune =>
      rw [build]
      rcases frequency with _ | _ <;> rcases q with _ | _ | _ <;> rcases detune with _ | _ | _ <;>
        simp [Patch.parts, Patch.assemble, buildAll, drive, driveIfGiven]
  | delay time feedback =>
      rw [build]
      cases time <;> cases feedback <;> simp [Patch.parts, Patch.assemble, buildAll, drive]
  | memoize id patch => cases h
  | envelope | constant | noise | convolver | destination =>
      rw [build]
      simp [Patch.parts, Patch.assemble, buildAll]

theorem after_state (next : Builder → Act Node) (s : Studio) :
    (state b >>= next).after s = (next ((s.builders[b]?).getD ⟨0, []⟩)).after s := by
  rw [Act.after_bind]
  rfl

theorem build_memoize (id : String) (patch : Patch) : build b (.memoize id patch) =
    if id.isEmpty then throw .missingMemoId
    else do
      match Keyed.get? (← state b).memo id with
      | some node => return node
      | none =>
        let node ← build b patch
        memoize b id node
        return node := by
  rw [build]
  dsimp only
  funext s
  cases id.isEmpty <;> rfl

end Builder

end Patchbay
