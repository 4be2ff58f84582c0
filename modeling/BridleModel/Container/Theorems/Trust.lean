import BridleModel.Container.Trust

namespace Container.Trust

open Container.ActiveSlot (Subdir slotSubdirs collectSubdirs rwMountRoots)
open Program (Ensures)

section Statements

-- The entry of a baseline that can be read, and is complete
def recorded (m : Module) (n : Subdir) : Option Folder :=
  (loadReadyRwMountBaseline m).join.bind fun payload => rootEntry (Json.Dict.get payload "roots") n

-- Marker and baseline are in order, and the directory is the recorded one.
structure Trusted (m : Module) (n : Subdir) (folder : Folder) : Prop where
  marker : isTrustInitialized m = some true
  entry  : ∃ entry, recorded m n = some entry ∧ entry.dev = folder.dev ∧ entry.ino = folder.ino

-- A directory of the container is entered under this condition only.
def Guarded (m : Module) (n : Subdir) : Prop :=
  n ∈ rwMountRoots → ∀ folder, m.slot n = some (.folder folder) → Trusted m n folder

-- A baseline is written once, by the call that has made the slot, for the directories in it. A mode is only set to the
-- recorded one, on the recorded directory.
def allowed (log : List (Module × Op)) (m : Module) : Op → Prop
  | .commitBaseline roots => m.baseline.isNone ∧ m.marker.isNone ∧ .mkdirActive ∈ log.map Prod.snd ∧
      ∀ n ∈ rwMountRoots, m.slot n = some (.folder (roots n))
  | .chmod n mode         => ∃ folder entry, m.slot n = some (.folder folder) ∧ recorded m n = some entry ∧
      (entry.dev = folder.dev ∧ entry.ino = folder.ino) ∧ entry.mode = mode
  | .access n | .chown n  => Guarded m n
  | _                     => True

end Statements

variable {o : Outside} {n : Subdir} {m : Module} {P : Journal Module Op → Prop} {op : Op}

section Rules

-- An operation without a condition
theorem ensures_act {Q : PUnit → Journal Module Op → Prop} (ha : ∀ log m, allowed log m op)
    (h : ∀ j left, P j → Q ⟨⟩ { store := op.apply j.store, left, log := j.log ++ [(j.store, op)] }) :
    Ensures allowed P (act op) Q :=
  .perform (fun _ _ => ha _ _) h

theorem ensures_act_true (ha : ∀ log m, allowed log m op) : Ensures allowed P (act op) fun _ _ => True :=
  ensures_act ha fun _ _ _ => trivial

theorem ensures_validate : Ensures allowed P (validate n) fun _ => P := by
  refine .bind (.read (Q := fun _ => P) fun _ h => h) fun m => ?_
  split
  case h_1 => exact .pure fun _ h => h
  case h_2 =>
    split
    case h_3 => exact .stop
    all_goals exact .pure fun _ h => h
  case h_3 => exact .stop

theorem ensures_validateLayout : Ensures allowed P validateLayout fun _ => P := by
  refine .bind (.read (Q := fun _ => P) fun _ h => h) fun m => ?_
  split
  case h_3 => exact .stop
  all_goals exact .inTurn fun _ => ensures_validate

end Rules

section Ensure

-- The call has made the slot itself.
def Made (newlyCreated : Bool) (j : Journal Module Op) : Prop :=
  newlyCreated → .mkdirActive ∈ j.log.map Prod.snd

theorem ensures_ensureActive : Ensures allowed P ensureActive Made := by
  refine .bind (.read (Q := fun _ _ => True) fun _ _ => trivial) fun m => ?_
  split
  case h_1 =>
    refine .bind (ensures_act (Q := fun _ j => Made true j) (fun _ _ => trivial) ?_) fun _ => .pure fun _ h => h
    intro j left _ _
    simp
  case h_2 => exact .pure fun _ _ h => nomatch h
  case h_3 => exact .stop

theorem ensures_ensureSlot {newlyCreated : Bool} :
    Ensures allowed (Made newlyCreated) (ensureSlot o n) fun _ => Made newlyCreated := by
  refine .bind (.read (Q := fun _ => Made newlyCreated) fun _ h => h) fun m => ?_
  split
  case h_1 =>
    split
    case h_1 =>
      refine ensures_act (fun _ _ => trivial) fun j left h hn => ?_
      rw [List.map_append]
      exact List.mem_append_left _ (h hn)
    case h_2 => exact .pure fun _ h => h
    case h_3 => exact .stop
  case h_2 => exact .stop

theorem classify_absent (h : classify m = some .absent) : m.baseline.isNone ∧ m.marker.isNone := by
  rw [classify] at h
  split at h
  case isTrue  => cases h
  case isFalse =>
    obtain ⟨initialized, _, h⟩ := Option.bind_eq_some_iff.mp h
    split at h
    case isTrue  =>
      obtain ⟨payload, _, h⟩ := Option.bind_eq_some_iff.mp h
      split at h <;> cases h
    case isFalse =>
      split at h
      case isTrue     => cases h
      case isFalse hn => simpa [not_or, and_comm] using hn

theorem collectRoots_spec {roots : Subdir → Folder} (h : initializeRwMountTrust.collectRoots m = some roots) :
    ∀ n ∈ rwMountRoots, m.slot n = some (.folder (roots n)) := by
  obtain ⟨hall, rfl⟩ := Option.ite_none_right_eq_some.mp h |>.imp_right Option.some.inj
  intro n hn
  have hroot := List.all_eq_true.mp hall n hn
  unfold initializeRwMountTrust.root at hroot ⊢
  split at hroot
  case h_1 hs => simp [hs]
  case h_2    => cases hroot

theorem ensures_initializeRwMountTrust {newlyCreated : Bool} :
    Ensures allowed (Made newlyCreated) (initializeRwMountTrust newlyCreated) fun _ _ => True := by
  refine .bind (.read (Q := fun m j => Made newlyCreated j ∧ j.store = m) fun _ h => ⟨h, rfl⟩) fun m => ?_
  refine .bind (.ofOption (Q := fun state j => (Made newlyCreated j ∧ j.store = m) ∧ classify m = some state)
    fun _ he _ h => ⟨h, he⟩) fun state => ?_
  split
  case isFalse    => exact .pure fun _ _ => trivial
  case isTrue hst =>
    obtain ⟨rfl, hn⟩ := hst
    refine .bind (.ofOption (Q := fun roots j => ((Made newlyCreated j ∧ j.store = m) ∧ classify m = some .absent) ∧
      initializeRwMountTrust.collectRoots m = some roots) fun _ he _ h => ⟨h, he⟩) fun roots => ?_
    refine .bind (ensures_act (Q := fun _ j => (.mkdirActive ∈ j.log.map Prod.snd ∧ j.store = { m with tmp := true }) ∧
      classify m = some .absent ∧ initializeRwMountTrust.collectRoots m = some roots) (fun _ _ => trivial) ?_) fun _ => ?_
    · intro j left h
      obtain ⟨⟨⟨hm, rfl⟩, hc⟩, hr⟩ := h
      refine ⟨⟨?_, rfl⟩, hc, hr⟩
      rw [List.map_append]
      exact List.mem_append_left _ (hm hn)
    refine .bind (.perform (Q := fun _ _ => True) ?_ fun _ _ _ => trivial) fun _ => ?_
    · intro j h
      obtain ⟨⟨hm, hs⟩, hc, hr⟩ := h
      rw [hs]
      exact ⟨(classify_absent hc).left, (classify_absent hc).right, hm, collectRoots_spec hr⟩
    exact .bind (ensures_act_true fun _ _ => trivial) fun _ => ensures_act_true fun _ _ => trivial

theorem ensures_ensureSlotRoots : Ensures allowed P (ensureSlotRoots o) fun _ _ => True :=
  .bind ensures_ensureActive fun _ => .bind (.inTurn fun _ => ensures_ensureSlot) fun _ =>
    ensures_initializeRwMountTrust

end Ensure

section Access

variable {folder : Folder} {mode : Int}

theorem slot_setSlot {item : Item} (h : (m.slot n).isSome) : (m.setSlot n item).slot n = some item := by
  unfold Module.slot Module.setSlot at *
  cases ha : m.active with
  | folder slots => simp
  | _            => simp [ha] at h

@[simp]
theorem marker_setSlot {item : Item} : (m.setSlot n item).marker = m.marker := by
  unfold Module.setSlot
  split <;> rfl

@[simp]
theorem baseline_setSlot {item : Item} : (m.setSlot n item).baseline = m.baseline := by
  unfold Module.setSlot
  split <;> rfl

-- The mode plays no part in the trust.
theorem Trusted.setSlot {item : Item} (h : Trusted m n folder) : Trusted (m.setSlot n item) n { folder with mode } := by
  obtain ⟨hm, entry, he, hi⟩ := h
  refine ⟨?_, entry, ?_, hi⟩
  · rwa [isTrustInitialized, marker_setSlot]
  · rwa [recorded, loadReadyRwMountBaseline, baseline_setSlot]

theorem guarded_chmod (hs : m.slot n = some (.folder folder)) (h : Trusted m n folder) :
    Guarded ((Op.chmod n mode).apply m) n := by
  intro _ folder' hf
  rw [Op.apply, hs] at hf ⊢
  rw [slot_setSlot (by simp [hs])] at hf
  cases hf
  exact h.setSlot

theorem ensures_restoreRwMountRootAccess :
    Ensures allowed P (restoreRwMountRootAccess n) fun _ j => Guarded j.store n := by
  unfold restoreRwMountRootAccess
  split
  case isTrue hn  => exact .pure fun _ _ h => absurd h hn
  case isFalse    =>
    refine .bind (.read (Q := fun m j => j.store = m) fun _ _ => rfl) fun m => ?_
    refine .bind (.ofOption (Q := fun b j => j.store = m ∧ isTrustInitialized m = some b) fun _ he _ h => ⟨h, he⟩)
      fun initialized => ?_
    split
    case isTrue      => exact .stop
    case isFalse hin =>
      have hin : initialized = true := by simpa using hin
      subst hin
      split
      case h_2 hslot       =>
        refine .pure fun j h _ folder hs => ?_
        rw [h.left] at hs
        exact absurd hs (hslot folder)
      case h_1 folder hslot =>
        refine .bind (.ofOption (Q := fun payload j => (j.store = m ∧ isTrustInitialized m = some true) ∧
          loadReadyRwMountBaseline m = some payload) fun _ he _ h => ⟨h, he⟩) fun payload => ?_
        refine .bind (.ofOption (Q := fun entry j => (j.store = m ∧ isTrustInitialized m = some true) ∧
          recorded m n = some entry) fun _ he _ h => ⟨h.left, by rw [recorded, h.right]; exact he⟩) fun entry => ?_
        split
        case isTrue      => exact .stop
        case isFalse hid =>
          obtain ⟨hdev, hino⟩ := Prod.mk.inj (not_not.mp hid)
          have htrusted : ∀ j : Journal Module Op, (j.store = m ∧ isTrustInitialized m = some true) ∧
              recorded m n = some entry → Trusted j.store n folder := fun j h =>
            ⟨h.left.left ▸ h.left.right, entry, h.left.left ▸ h.right, hdev.symm, hino.symm⟩
          split
          case isTrue  =>
            refine .pure fun j h _ folder' hs => ?_
            rw [h.left.left, hslot] at hs
            cases hs
            exact htrusted j h
          case isFalse =>
            refine .perform (fun j h => ?_) fun j left h => ?_
            · exact ⟨folder, entry, h.left.left ▸ hslot, h.left.left ▸ h.right, ⟨hdev.symm, hino.symm⟩, rfl⟩
            · exact guarded_chmod (h.left.left ▸ hslot) (htrusted j h)

theorem ensures_makeMissing : Ensures allowed P (makeMissing o n) fun _ _ => True := by
  refine .bind (.read (Q := fun _ _ => True) fun _ _ => trivial) fun m => ?_
  split
  case isTrue  => exact ensures_act_true fun _ _ => trivial
  case isFalse => exact .pure fun _ _ => trivial

theorem ensures_attempt {phase : Phase} {again : Bool} :
    Ensures allowed (fun j => Guarded j.store n) (attempt o phase n again) fun _ _ => True := by
  refine .bind (.perform (Q := fun _ _ => True) (fun _ h => h) fun _ _ _ => trivial) fun _ =>
    .bind ensures_makeMissing fun _ => ?_
  split
  case h_3 => exact .stop
  all_goals exact .pure fun _ _ => trivial

theorem ensures_runMountRootAccess {phase : Phase} : Ensures allowed P (runMountRootAccess o phase n) fun _ _ => True := by
  refine .bind ensures_validate fun _ => .bind ensures_restoreRwMountRootAccess fun _ => .bind ensures_attempt fun done => ?_
  split
  case isTrue  => exact .pure fun _ _ => trivial
  case isFalse =>
    refine .bind ensures_restoreRwMountRootAccess fun _ => .bind ensures_attempt fun done => ?_
    split
    case isTrue  => exact .pure fun _ _ => trivial
    case isFalse => exact .stop

theorem ensures_clearDirectoryChildren : Ensures allowed P (clearDirectoryChildren o n) fun _ _ => True := by
  refine .bind ensures_validate fun _ => .bind (.read (Q := fun _ _ => True) fun _ _ => trivial) fun m => ?_
  split
  case isTrue  => exact ensures_act_true fun _ _ => trivial
  case isFalse => exact ensures_runMountRootAccess

theorem ensures_inTurn {f : Subdir → Host PUnit} {ns : List Subdir}
    (h : ∀ n, Ensures allowed (fun _ => True) (f n) fun _ _ => True) :
    Ensures allowed P (Program.inTurn f ns) fun _ _ => True :=
  .weaken (.inTurn h) (fun _ _ => trivial) fun _ _ h => h

theorem ensures_clearSlotContents : Ensures allowed P (clearSlotContents o) fun _ _ => True :=
  .bind ensures_validateLayout fun _ => ensures_inTurn fun _ => ensures_clearDirectoryChildren

theorem ensures_populate : Ensures allowed P (populate o n) fun _ _ => True := by
  unfold populate
  split
  case isTrue     => exact ensures_runMountRootAccess
  case isFalse hn =>
    refine .bind ensures_validate fun _ => .bind (.weaken ensures_attempt (fun j _ h => absurd h hn) fun _ _ h => h) ?_
    intro done
    split
    case isTrue  => exact .pure fun _ _ => trivial
    case isFalse => exact .stop

theorem ensures_collectOne : Ensures allowed P (collectOne o n) fun _ _ => True := by
  refine .bind (.read (Q := fun _ _ => True) fun _ _ => trivial) fun m => ?_
  split
  case isTrue  => exact .pure fun _ _ => trivial
  case isFalse => exact ensures_runMountRootAccess

theorem ensures_dockerChown (h : o.aligns = false) : Ensures allowed P (dockerChown o) fun _ _ => True := by
  rw [dockerChown, h]
  exact .pure fun _ _ => trivial

theorem ensures_program {call : Call} (h : o.aligns = false) : Ensures allowed P (call.program o) fun _ _ => True := by
  cases call with
  | ensureSlotRoots   => exact ensures_ensureSlotRoots
  | clearActiveSlot   =>
    exact .bind ensures_ensureSlotRoots fun _ => .bind (ensures_dockerChown h) fun _ => ensures_clearSlotContents
  | prepareActiveSlot =>
    exact .bind ensures_ensureSlotRoots fun _ => .bind (ensures_dockerChown h) fun _ =>
      .bind ensures_clearSlotContents fun _ => .bind (ensures_inTurn fun _ => ensures_populate) fun _ =>
        .bind ensures_runMountRootAccess fun _ => ensures_dockerChown h
  | collectActiveSlot =>
    refine .bind (ensures_dockerChown h) fun _ => .bind ensures_validateLayout fun _ =>
      .bind (.read (Q := fun _ _ => True) fun _ _ => trivial) fun m => ?_
    split
    case h_1 => exact ensures_inTurn fun _ => ensures_collectOne
    case h_2 => exact .pure fun _ _ => trivial

end Access

section Rejected

variable {folder : Folder} {j : Journal Module Op}

-- An untrusted directory is neither read nor changed.
theorem restoreRwMountRootAccess_raises (hn : n ∈ rwMountRoots) (hs : j.store.slot n = some (.folder folder))
    (ht : ¬Trusted j.store n folder) : restoreRwMountRootAccess n j = (j, none) := by
  rw [restoreRwMountRootAccess, if_neg (not_not.mpr hn), Program.read_bind]
  cases hin : isTrustInitialized j.store with
  | none             => rfl
  | some initialized =>
    rw [Program.ofOption_some_bind]
    cases initialized with
    | false => rfl
    | true  =>
      rw [if_neg (by simp), hs]
      dsimp only
      cases hp : loadReadyRwMountBaseline j.store with
      | none         => rfl
      | some payload =>
        rw [Program.ofOption_some_bind]
        cases he : payload.bind fun payload => rootEntry (Json.Dict.get payload "roots") n with
        | none       => rfl
        | some entry =>
          have hrec : recorded j.store n = some entry := by
            rw [recorded, hp]
            exact he
          rw [Program.ofOption_some_bind, if_pos]
          · rfl
          · intro hid
            obtain ⟨hdev, hino⟩ := Prod.mk.inj hid
            exact ht ⟨hin, entry, hrec, hdev.symm, hino.symm⟩

theorem validate_run : validate n j = (j, some ⟨⟩) ∨ validate n j = (j, none) := by
  rw [validate, Program.read_bind]
  cases j.store.active with
  | absent       => exact .inl rfl
  | link         => exact .inr rfl
  | file         => exact .inr rfl
  | folder slots =>
    dsimp only
    cases slots n with
    | none      => exact .inl rfl
    | some item =>
      cases item with
      | folder folder => exact .inl rfl
      | link toFolder => exact .inr rfl
      | file          => exact .inr rfl

theorem runMountRootAccess_raises {phase : Phase} (hn : n ∈ rwMountRoots)
    (hs : j.store.slot n = some (.folder folder)) (ht : ¬Trusted j.store n folder) :
    runMountRootAccess o phase n j = (j, none) := by
  rw [runMountRootAccess, Program.bind_apply]
  cases validate_run (n := n) (j := j) with
  | inl hv =>
    rw [hv]
    dsimp only
    rw [Program.bind_apply, restoreRwMountRootAccess_raises hn hs ht]
  | inr hv => rw [hv]

end Rejected

section Runs

variable {s t : Slot} {as : List Action}

-- Trust is set up once, by the call that makes the slot, and only the recorded directories are entered, whenever the
-- calls do not align the owners of the mounts.
theorem slot_sound (hi : slotSystem.init s) (hr : slotSystem.run s as = some t)
    (ha : ∀ call o, .call call o ∈ as → o.aligns = false) :
    (∀ log ∈ t.past, Program.Sound allowed log) ∧
      ∀ o phase n folder j, n ∈ rwMountRoots → t.module.slot n = some (.folder folder) → ¬Trusted t.module n folder →
        j.store = t.module → runMountRootAccess o phase n j = (j, none) := by
  refine ⟨?_, fun o phase n folder j hn hs ht hj => runMountRootAccess_raises hn (hj ▸ hs) (hj ▸ ht)⟩
  refine TransitionSystem.run_induction (M := slotSystem)
    (I := fun as s => (∀ call o, .call call o ∈ as → o.aligns = false) → ∀ log ∈ s.past, Program.Sound allowed log)
    ?_ ?_ hr ha
  · intro _ log hl
    rw [show s.past = [] from hi] at hl
    cases hl
  · intro as a s₁ s₂ _ hs hstep ha
    cases hstep
    have hs := hs fun call o h => ha call o (List.mem_append_left _ h)
    cases a with
    | change m    => exact hs
    | call call o =>
      intro log hl
      cases List.mem_append.mp hl with
      | inl hl => exact hs log hl
      | inr hl =>
        rw [List.mem_singleton.mp hl]
        exact (ensures_program (P := fun _ => True) (ha call o (List.mem_append_right _ List.mem_cons_self)) _ .nil
          trivial).left

end Runs

section Samples

def freshSample (n : Subdir) : Folder :=
  { dev := 1, ino := (slotSubdirs.idxOf n : Nat), mode := 0o755 }

def outsideSample : Outside where
  operations := 40
  fresh      := freshSample
  outcome    := fun _ _ _ => .done
  aligns     := false

def moduleSample : Module :=
  { active := .absent, marker := none, baseline := none, tmp := false }

-- The container has taken the permissions of the project away.
def closedSample (m : Module) : Module :=
  m.setSlot .project (.folder { freshSample .project with mode := 0 })

def actionsSample : List Action :=
  [
    .call .prepareActiveSlot outsideSample,
    .change (closedSample (Call.prepareActiveSlot.journal outsideSample moduleSample).store),
    .call .collectActiveSlot outsideSample
  ]

theorem slot_sound_sample :
    ∃ t, slotSystem.run ⟨moduleSample, []⟩ actionsSample = some t ∧ t.past.map List.length = [21, 4] ∧
      ∀ log ∈ t.past, Program.Sound allowed log := by
  have hi : slotSystem.init ⟨moduleSample, []⟩ := rfl
  have hr : slotSystem.run ⟨moduleSample, []⟩ actionsSample = some _ := rfl
  refine ⟨_, hr, by decide +kernel, (slot_sound hi hr ?_).left⟩
  intro call o h
  simp only [actionsSample, List.mem_cons, List.not_mem_nil, or_false] at h
  obtain h | h | h := h <;> cases h <;> rfl

-- The first call stops before it has written a baseline, the second one gives the directories another owner.
def alignedSample : Outside :=
  { outsideSample with operations := 1, aligns := true }

def stoppedSample : Outside :=
  { outsideSample with operations := 6 }

def stoppedActions : List Action :=
  [.call .ensureSlotRoots stoppedSample, .call .collectActiveSlot alignedSample]

theorem slot_not_sound :
    ¬∀ {s t : Slot} {as : List Action}, slotSystem.init s → slotSystem.run s as = some t →
      ∀ log ∈ t.past, Program.Sound allowed log := by
  intro h
  have hi : slotSystem.init ⟨moduleSample, []⟩ := rfl
  have hr : slotSystem.run ⟨moduleSample, []⟩ stoppedActions = some _ := rfl
  have hs := h hi hr _ (List.mem_append_right _ List.mem_cons_self)
  have hg : allowed [] (Call.ensureSlotRoots.journal stoppedSample moduleSample).store (.chown .project) :=
    hs.split (show _ = [] ++ _ :: [] from rfl)
  have ht := hg (by decide) (freshSample .project) rfl
  exact absurd ht.marker (by decide +kernel)

end Samples

end Container.Trust
