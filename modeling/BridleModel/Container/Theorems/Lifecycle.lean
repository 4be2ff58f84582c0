import BridleModel.Container.Lifecycle

namespace Container.Manager

variable {m m' : Manager} {moduleId key : String} {ref : Nat} {e : Event}
  {f : ModuleContainerRecord → ModuleContainerRecord} {record : ModuleContainerRecord}

-- No command is executed in a container after a fault of it.
def NoReuse (events : List Event) : Prop :=
  events.Pairwise fun e e' => ∀ containerId, e = .fault containerId → e' ≠ .exec containerId

def Faulty (m : Manager) (containerId : String) : Prop :=
  .fault containerId ∈ m.events

-- What holds of the containers, whatever the registry says.
structure Base (m : Manager) : Prop where
  noReuse : NoReuse m.events
  known   : ∀ record ∈ m.records, record.containerId ∈ m.seen
  seen    : ∀ {containerId}, m.Faulty containerId → containerId ∈ m.seen

-- A registered record that may be used is one of the module, in a container without a fault.
structure Sound (moduleId : String) (events : List Event) (record : ModuleContainerRecord) : Prop where
  module    : record.moduleId = moduleId
  replacing : record.state ≠ .replacing
  usable    : record.state ∈ [.idle, .queued] → .fault record.containerId ∉ events

structure Inv (moduleId : String) (m : Manager) : Prop extends Base m where
  single : m.registry.length ≤ 1
  sound  : ∀ {key ref}, (key, ref) ∈ m.registry → ∃ record, m.records[ref]? = some record ∧ Sound moduleId m.events record

def Only (key : String) (m : Manager) : Prop :=
  ∀ entry ∈ m.registry, entry.fst = key

theorem init_inv : Inv moduleId .init where
  noReuse  := List.Pairwise.nil
  known _ h := absurd h List.not_mem_nil
  seen h   := absurd h List.not_mem_nil
  single   := Nat.zero_le 1
  sound h  := absurd h List.not_mem_nil

section Events

theorem noReuse_log (h : NoReuse m.events) (he : ∀ c, e = .exec c → ¬m.Faulty c) : NoReuse (m.log e).events := by
  refine List.pairwise_append.mpr ⟨h, List.pairwise_singleton .., ?_⟩
  intro e₁ h₁ e₂ h₂ c hc hx
  obtain rfl := List.mem_singleton.mp h₂
  subst hc
  exact he c hx h₁

theorem faulty_log {c : String} : (m.log e).Faulty c ↔ m.Faulty c ∨ .fault c = e := by
  simp [Faulty, log]

theorem faulty_cleanup {c c' : String} : (m.log (.cleanup c')).Faulty c ↔ m.Faulty c := by
  simp [faulty_log]

theorem Base.log_cleanup {c : String} (h : Base m) : Base (m.log (.cleanup c)) where
  noReuse  := noReuse_log h.noReuse fun _ he => by cases he
  known    := h.known
  seen hf  := h.seen (faulty_cleanup.mp hf)

theorem Sound.log_cleanup {c : String} (h : Sound moduleId m.events record) :
    Sound moduleId (m.log (.cleanup c)).events record where
  module    := h.module
  replacing := h.replacing
  usable hs := fun hf => h.usable hs (faulty_cleanup.mp hf)

theorem Inv.log_cleanup {c : String} (h : Inv moduleId m) : Inv moduleId (m.log (.cleanup c)) where
  toBase   := h.toBase.log_cleanup
  single   := h.single
  sound hm := by
    obtain ⟨record, hr, hs⟩ := h.sound hm
    exact ⟨record, hr, hs.log_cleanup⟩

end Events

section Updates

theorem getElem?_update {i : Nat} : (m.update ref f).records[i]? =
    if ref = i then m.records[i]?.map f else m.records[i]? := by
  simp only [update, List.getElem?_modify]
  split <;> simp_all

theorem getElem?_update_self (h : m.records[ref]? = some record) : (m.update ref f).records[ref]? = some (f record) := by
  rw [getElem?_update, if_pos rfl, h]
  rfl

-- An update keeps the container of the record.
theorem Base.update (h : Base m) (hc : ∀ r, (f r).containerId = r.containerId) : Base (m.update ref f) where
  noReuse := h.noReuse
  known   := by
    intro record hr
    obtain ⟨i, hi⟩ := List.mem_iff_getElem?.mp hr
    rw [getElem?_update] at hi
    split at hi
    case isFalse => exact h.known record (List.mem_of_getElem? hi)
    case isTrue  =>
      obtain ⟨r, hr', rfl⟩ := Option.map_eq_some_iff.mp hi
      exact hc r ▸ h.known r (List.mem_of_getElem? hr')
  seen    := h.seen

theorem Inv.update (h : Inv moduleId m) (hc : ∀ r, (f r).containerId = r.containerId)
    (hm : ∀ r, (f r).moduleId = r.moduleId)
    (hs : ∀ {r}, m.records[ref]? = some r → Sound moduleId m.events r → (f r).state ≠ .replacing ∧
      ((f r).state ∈ [.idle, .queued] → ¬m.Faulty r.containerId)) :
    Inv moduleId (m.update ref f) where
  toBase   := h.toBase.update hc
  single   := h.single
  sound he := by
    obtain ⟨r, hr, hsound⟩ := h.sound he
    rw [getElem?_update]
    split
    case isFalse => exact ⟨r, hr, hsound.module, hsound.replacing, hsound.usable⟩
    case isTrue heq =>
      subst heq
      obtain ⟨h₁, h₂⟩ := hs hr hsound
      exact ⟨f r, by rw [hr]; rfl, (hm r).trans hsound.module, h₁, fun hu => hc r ▸ h₂ hu⟩

end Updates

section Registry

variable {containerId : String} {request : ContainerRequest}

theorem Inv.pop (h : Inv moduleId m) : Inv moduleId (m.pop key) where
  noReuse  := h.noReuse
  known    := h.known
  seen     := h.seen
  single   := (List.length_filter_le ..).trans h.single
  sound he := h.sound (List.mem_filter.mp he).left

theorem Inv.activate (h : Inv moduleId m) : Inv moduleId (m.activate moduleId key) where
  noReuse := h.noReuse
  known   := h.known
  seen    := h.seen
  single  := h.single
  sound   := h.sound

theorem only_of_singleton (h : m.registry = [(key, ref)]) : Only key m := by
  intro entry hm
  rw [h] at hm
  exact congrArg Prod.fst (List.mem_singleton.mp hm)

theorem registered_eq_some : m.registered key = some (ref, record) ↔
    Assoc.get m.registry key = some ref ∧ m.records[ref]? = some record := by
  simp [registered, Option.bind_eq_some_iff]

theorem set_registry {value : Nat} (hs : m.registry.length ≤ 1) (ho : Only key m) :
    Assoc.set m.registry key value = [(key, value)] := by
  match hr : m.registry with
  | []           => rfl
  | [entry]      =>
    have hk : entry.fst = key := ho entry (hr ▸ List.mem_singleton_self entry)
    simp [Assoc.set, hk]
  | _ :: _ :: tl => simp [hr] at hs

theorem registry_of_get (hs : m.registry.length ≤ 1) (hg : Assoc.get m.registry key = some ref) :
    m.registry = [(key, ref)] := by
  have hm := Assoc.mem_of_get hg
  match hr : m.registry with
  | []           => simp [hr] at hm
  | [entry]      => exact congrArg (· :: []) (List.mem_singleton.mp (hr ▸ hm)).symm
  | _ :: _ :: tl => simp [hr] at hs

theorem get_of_mem_registry (hs : m.registry.length ≤ 1) (h : (key, ref) ∈ m.registry) :
    Assoc.get m.registry key = some ref := by
  match hr : m.registry with
  | []           => simp [hr] at h
  | [entry]      =>
    obtain rfl := List.mem_singleton.mp (hr ▸ h)
    simp [Assoc.get]
  | _ :: _ :: tl => simp [hr] at hs

-- A record that a container gets replaces the one under the key.
theorem Base.upsert (h : Base m) : Base (m.upsert key (request.record containerId)) where
  noReuse := h.noReuse
  known   := by
    intro record hr
    refine List.mem_append.mpr ?_
    cases List.mem_append.mp hr with
    | inl hr => exact .inl (h.known record hr)
    | inr hr => exact .inr (List.mem_singleton.mp hr ▸ List.mem_singleton_self _)
  seen hf := List.mem_append_left _ (h.seen hf)

theorem upsert_registry (hs : m.registry.length ≤ 1) (ho : Only key m) :
    (m.upsert key record).registry = [(key, m.records.length)] :=
  set_registry hs ho

theorem Inv.upsert (h : Base m) (hs : m.registry.length ≤ 1) (ho : Only key m) (hm : request.moduleId = moduleId)
    (hf : ¬m.Faulty containerId) : Inv moduleId (m.upsert key (request.record containerId)) where
  toBase   := h.upsert
  single   := by simp [upsert_registry hs ho]
  sound he := by
    rw [upsert_registry hs ho] at he
    simp only [List.mem_singleton, Prod.mk.injEq] at he
    obtain ⟨rfl, rfl⟩ := he
    exact ⟨request.record containerId, by simp [Manager.upsert], hm, by simp [ContainerRequest.record], fun _ => hf⟩

theorem replaceRecord_registry : (m.replaceRecord key).registry = m.registry.filter (·.fst ≠ key) := by
  rw [replaceRecord]
  split <;> rfl

-- The record is marked before it is popped, and no other key is left.
theorem Inv.replaceRecord (h : Inv moduleId m) : Inv moduleId (m.replaceRecord key) := by
  rw [Manager.replaceRecord]
  split
  case h_1 => exact h.pop
  case h_2 ref record hr =>
    obtain ⟨hg, hrec⟩ := registered_eq_some.mp hr
    have hb : Base ((m.update ref fun r => { r with state := .replacing }).log (.cleanup record.containerId)) :=
      Base.log_cleanup <| Base.update h.toBase <| by simp
    have hempty : m.registry.filter (·.fst ≠ key) = [] := by
      simp [registry_of_get h.single hg]
    exact {
      noReuse  := hb.noReuse
      known    := hb.known
      seen     := hb.seen
      single   := (List.length_filter_le ..).trans h.single
      sound he := by
        simp only [Manager.pop, log, Manager.update, hempty] at he
        exact absurd he List.not_mem_nil
    }

end Registry

section Retire

variable {containerId : String} {request : ContainerRequest} {listed : List Listed}

-- What retiring does besides its changes to the registry: it cleans up.
structure Retires (m m' : Manager) : Prop where
  faulty  : ∀ {containerId}, m'.Faulty containerId ↔ m.Faulty containerId
  cleanup : ∀ {containerId}, .cleanup containerId ∈ m.events → .cleanup containerId ∈ m'.events

namespace Retires

variable {m₁ m₂ m₃ : Manager}

theorem refl : Retires m m where
  faulty    := Iff.rfl
  cleanup h := h

theorem trans (h₁ : Retires m₁ m₂) (h₂ : Retires m₂ m₃) : Retires m₁ m₃ where
  faulty    := h₂.faulty.trans h₁.faulty
  cleanup h := h₂.cleanup (h₁.cleanup h)

theorem of_events (h : m'.events = m.events) : Retires m m' where
  faulty    := by simp [Faulty, h]
  cleanup h' := h ▸ h'

theorem of_cleanup (h : m'.events = m.events ++ [.cleanup containerId]) : Retires m m' where
  faulty    := by simp [Faulty, h]
  cleanup h' := h ▸ List.mem_append_left _ h'

theorem replaceRecord : Retires m (m.replaceRecord key) := by
  rw [Manager.replaceRecord]
  split
  case h_1 => exact of_events rfl
  case h_2 => exact of_cleanup rfl

end Retires

theorem cleanup_replaceRecord (h : m.registered key = some (ref, record)) :
    .cleanup record.containerId ∈ (m.replaceRecord key).events := by
  rw [replaceRecord, h]
  exact List.mem_append_right _ (List.mem_singleton_self _)

theorem Inv.foldl_replaceRecord (h : Inv moduleId m) (entries : List (String × Nat)) :
    Inv moduleId (entries.foldl (fun m entry => m.replaceRecord entry.fst) m) ∧
      Retires m (entries.foldl (fun m entry => m.replaceRecord entry.fst) m) ∧
      (entries.foldl (fun m entry => m.replaceRecord entry.fst) m).registry =
        m.registry.filter (·.fst ∉ entries.map (·.fst)) := by
  induction entries generalizing m with
  | nil           => exact ⟨h, .refl, by simp⟩
  | cons hd tl hi =>
    have hrep : Inv moduleId (m.replaceRecord hd.fst) := h.replaceRecord
    obtain ⟨h₁, h₂, h₃⟩ := hi hrep
    refine ⟨h₁, Retires.replaceRecord.trans h₂, ?_⟩
    rw [List.foldl_cons, h₃, replaceRecord_registry, List.filter_filter]
    refine List.filter_congr fun entry _ => ?_
    rw [Bool.eq_iff_iff]
    simp [and_comm]

theorem retirePrevious_cases (m : Manager) (moduleId key : String) : m.retirePrevious moduleId key = m ∨
    ∃ k ≠ key, m.retirePrevious moduleId key = m.replaceRecord k := by
  rw [retirePrevious]
  split
  case h_1 => exact .inl rfl
  case h_2 k _ =>
    split
    case isTrue h  => exact .inr ⟨k, h.right, rfl⟩
    case isFalse h => exact .inl rfl

-- A registered record stays where it is, or its container is cleaned up.
structure Retired (key : String) (m m' : Manager) : Prop extends Retires m m' where
  registered : ∀ {k ref record}, m.registered k = some (ref, record) →
    m'.registered k = some (ref, record) ∨ k ≠ key ∧ .cleanup record.containerId ∈ m'.events

theorem Retired.refl : Retired key m m where
  toRetires    := .refl
  registered h := .inl h

theorem Retired.trans {m₁ m₂ m₃ : Manager} (h₁ : Retired key m₁ m₂) (h₂ : Retired key m₂ m₃) : Retired key m₁ m₃ where
  toRetires    := h₁.toRetires.trans h₂.toRetires
  registered h := by
    cases h₁.registered h with
    | inl h => exact h₂.registered h
    | inr h => exact .inr ⟨h.left, h₂.cleanup h.right⟩

theorem registered_unique {k : String} {ref' : Nat} {record' : ModuleContainerRecord} (hs : m.registry.length ≤ 1)
    (h : m.registered key = some (ref, record)) (h' : m.registered k = some (ref', record')) :
    k = key ∧ ref' = ref ∧ record' = record := by
  obtain ⟨hg, hr⟩ := registered_eq_some.mp h
  obtain ⟨hg', hr'⟩ := registered_eq_some.mp h'
  have he := (registry_of_get hs hg').symm.trans (registry_of_get hs hg)
  simp only [List.cons.injEq, Prod.mk.injEq, and_true] at he
  obtain ⟨rfl, rfl⟩ := he
  exact ⟨rfl, rfl, Option.some.inj (hr'.symm.trans hr)⟩

theorem registered_pop {k : String} (h : key ≠ k) : (m.pop k).registered key = m.registered key := by
  simp only [Manager.registered, pop, Assoc.get_filter, if_neg h]

theorem Inv.retired_replaceRecord {k : String} (h : Inv moduleId m) (hk : k ≠ key) :
    Retired key m (m.replaceRecord k) where
  toRetires     := .replaceRecord
  registered hr := by
    rename_i k' ref record
    by_cases he : k' = k
    case pos =>
      subst he
      exact .inr ⟨hk, cleanup_replaceRecord hr⟩
    case neg =>
      have hn : m.registered k = none := by
        cases hc : m.registered k with
        | none   => rfl
        | some p => exact absurd (registered_unique h.single hc hr).left he
      refine .inl ?_
      rw [Manager.replaceRecord, hn]
      exact (registered_pop he).trans hr

theorem Inv.retired_foldl {entries : List (String × Nat)} (h : Inv moduleId m)
    (he : ∀ entry ∈ entries, entry.fst ≠ key) :
    Retired key m (entries.foldl (fun m entry => m.replaceRecord entry.fst) m) := by
  induction entries generalizing m with
  | nil           => exact .refl
  | cons hd tl hi =>
    exact (h.retired_replaceRecord (he hd List.mem_cons_self)).trans
      (hi h.replaceRecord fun entry hm => he entry (List.mem_cons_of_mem _ hm))

theorem Inv.retireOther (h : Inv moduleId m) (key : String) :
    Inv moduleId (m.retireOtherModuleContainers moduleId key) ∧
      Retired key m (m.retireOtherModuleContainers moduleId key) ∧
      Only key (m.retireOtherModuleContainers moduleId key) := by
  obtain ⟨hinv, hret⟩ : Inv moduleId (m.retirePrevious moduleId key) ∧
      Retired key m (m.retirePrevious moduleId key) := by
    cases retirePrevious_cases m moduleId key with
    | inl he =>
      rw [he]
      exact ⟨h, .refl⟩
    | inr he =>
      obtain ⟨k, hk, he⟩ := he
      rw [he]
      exact ⟨h.replaceRecord, h.retired_replaceRecord hk⟩
  simp only [retireOtherModuleContainers]
  generalize m.retirePrevious moduleId key = m₁ at hinv hret ⊢
  obtain ⟨h₁, -, h₃⟩ := hinv.foldl_replaceRecord <| m₁.registry.filter fun entry =>
    entry.fst ≠ key ∧ (m₁.records[entry.snd]?).any (·.moduleId = moduleId)
  refine ⟨h₁, hret.trans (hinv.retired_foldl ?_), ?_⟩
  · intro entry hm
    exact (of_decide_eq_true (List.mem_filter.mp hm).right).left
  · intro entry hm
    rw [h₃, List.mem_filter] at hm
    obtain ⟨hm, hn⟩ := hm
    by_contra hk
    obtain ⟨record, hr, hs⟩ := hinv.sound hm
    refine absurd (List.mem_map_of_mem (List.mem_filter.mpr ⟨hm, ?_⟩)) (of_decide_eq_true hn)
    simp [hk, hr, hs.module]

-- A listed container carries the active key under another name.
def displaces (key name : String) (c : Listed) : Bool :=
  c.request.any fun r => r.fst = key ∧ r.snd ≠ name

theorem Inv.retireDiscovered (h : Inv moduleId m) (ho : Only key m) (name : String) (c : Listed) :
    Inv moduleId (m.retireDiscovered key name c) ∧ Retires m (m.retireDiscovered key name c) ∧
      Only key (m.retireDiscovered key name c) ∧
      (displaces key name c = false → (m.retireDiscovered key name c).registered key = m.registered key) := by
  rw [Manager.retireDiscovered]
  split
  case h_1 =>
    split
    case isTrue  => exact ⟨h, .refl, ho, fun _ => rfl⟩
    case isFalse => exact ⟨h.log_cleanup, .of_cleanup rfl, ho, fun _ => rfl⟩
  case h_2 inspectedKey inspectedName hc =>
    split
    case isTrue       => exact ⟨h, .refl, ho, fun _ => rfl⟩
    case isFalse hsame =>
      refine ⟨h.log_cleanup.pop, .of_cleanup rfl, fun entry hm => ho entry (List.mem_filter.mp hm).left, ?_⟩
      intro hd
      have hne : key ≠ inspectedKey := by
        rintro rfl
        simp [displaces, hc] at hd
        exact hsame ⟨rfl, hd⟩
      exact registered_pop hne

theorem Inv.retireDiscoveredModuleContainers (h : Inv moduleId m) (ho : Only key m) (name : String)
    (listed : List Listed) :
    Inv moduleId (m.retireDiscoveredModuleContainers key name listed) ∧
      Retires m (m.retireDiscoveredModuleContainers key name listed) ∧
      Only key (m.retireDiscoveredModuleContainers key name listed) ∧
      (listed.any (displaces key name) = false →
        (m.retireDiscoveredModuleContainers key name listed).registered key = m.registered key) := by
  rw [Manager.retireDiscoveredModuleContainers]
  induction listed generalizing m with
  | nil           => exact ⟨h, .refl, ho, fun _ => rfl⟩
  | cons hd tl hi =>
    obtain ⟨h₁, h₂, h₃, h₄⟩ := h.retireDiscovered ho name hd
    obtain ⟨h₅, h₆, h₇, h₈⟩ := hi h₁ h₃
    refine ⟨h₅, h₂.trans h₆, h₇, ?_⟩
    intro hn
    obtain ⟨hhd, htl⟩ := Bool.or_eq_false_iff.mp (List.any_cons ▸ hn)
    exact (h₈ htl).trans (h₄ hhd)

end Retire

section Acquire

variable {request : ContainerRequest} {answers : Answers} {replace : Bool} {found : Found} {res : Option Nat}

-- What an acquisition leaves behind, and what it returns when it succeeds.
structure Acquired (moduleId key : String) (m m' : Manager) (res : Option Nat) : Prop extends Retires m m' where
  inv : Inv moduleId m'
  got : ∀ {ref}, res = some ref →
    m'.registry = [(key, ref)] ∧ ∃ record, m'.records[ref]? = some record ∧ record.state = .idle

theorem Acquired.of_inv (h : Inv moduleId m') (hr : Retires m m') : Acquired moduleId key m m' none where
  toRetires := hr
  inv       := h
  got h     := by cases h

theorem Acquired.trans {m₁ : Manager} (h₁ : Retires m m₁) (h₂ : Acquired moduleId key m₁ m' res) :
    Acquired moduleId key m m' res where
  toRetires := h₁.trans h₂.toRetires
  inv       := h₂.inv
  got       := h₂.got

theorem Acquired.upsert {containerId : String} (h : Base m) (hs : m.registry.length ≤ 1) (ho : Only key m)
    (hm : request.moduleId = moduleId) (hf : ¬m.Faulty containerId) :
    Acquired moduleId key m (m.upsert key (request.record containerId)) (some m.records.length) where
  toRetires := .of_events rfl
  inv       := .upsert h hs ho hm hf
  got hr    := by
    cases hr
    exact ⟨upsert_registry hs ho, request.record containerId, by simp [Manager.upsert], rfl⟩

theorem Acquired.activate (h : Acquired moduleId key m m' res) :
    Acquired moduleId key m (m'.activate moduleId key) res where
  faulty  := h.faulty
  cleanup := h.cleanup
  inv     := h.inv.activate
  got     := h.got

-- The record adopted before counts only if no container is created.
theorem createContainer_acquired (h : Base m) (hs : m.registry.length ≤ 1) (ho : Only key m)
    (hm : request.moduleId = moduleId) (hnew : ∀ containerId ∈ answers.created, ¬m.Faulty containerId)
    (hinv : ¬(answers.created.isSome ∧ answers.started) → Inv moduleId m) :
    Acquired moduleId key m (m.createContainer request key answers).fst (m.createContainer request key answers).snd := by
  rw [createContainer]
  split
  case h_1 hc => exact .of_inv (hinv (by simp [hc])) .refl
  case h_2 containerId hc =>
    split
    case isTrue =>
      subst hm
      exact (Acquired.upsert h hs ho rfl (hnew containerId hc)).activate
    case isFalse hst => exact .of_inv (hinv (by simp [hst])).log_cleanup (.of_cleanup rfl)

theorem only_replaceRecord {k : String} (ho : Only key m) : Only key (m.replaceRecord k) := by
  intro entry hm
  rw [replaceRecord_registry] at hm
  exact ho entry (List.mem_filter.mp hm).left

theorem adoptOrCreate_acquired (replace : Bool) (h : Inv moduleId m) (ho : Only key m) (hm : request.moduleId = moduleId)
    (hnew : ∀ containerId ∈ answers.created, ¬m.Faulty containerId)
    (hfound : ∀ {f}, answers.found = some (some f) → f.adoptable = true → m.Faulty f.containerId →
      replace = true ∧ answers.created.isSome = true ∧ answers.started = true) :
    Acquired moduleId key m (m.adoptOrCreate request key replace answers).fst
      (m.adoptOrCreate request key replace answers).snd := by
  rw [adoptOrCreate]
  split
  case h_1 => exact .of_inv h .refl
  case h_2 => exact createContainer_acquired h.toBase h.single ho hm hnew fun _ => h
  case h_3 f hf =>
    simp only [adoptExistingByName]
    by_cases had : f.adoptable
    case neg =>
      rw [if_neg had]
      exact .trans (.of_cleanup rfl) <| createContainer_acquired h.toBase.log_cleanup h.single ho hm
        (fun id hid hfault => hnew id hid (faulty_cleanup.mp hfault)) fun _ => h.log_cleanup
    case pos =>
      rw [if_pos had]
      dsimp only
      have hbase : Base (m.upsert key (request.record f.containerId)) := h.toBase.upsert
      have hret : Retires m (m.upsert key (request.record f.containerId)) := .of_events rfl
      have hreg : (m.upsert key (request.record f.containerId)).registry = [(key, m.records.length)] :=
        upsert_registry h.single ho
      by_cases hfault : m.Faulty f.containerId
      case pos =>
        obtain ⟨hrep, hcreated, hstarted⟩ := hfound hf had hfault
        rw [if_pos hrep]
        exact .trans hret <| createContainer_acquired hbase (by simp [hreg]) (only_of_singleton hreg) hm hnew
          fun hn => absurd ⟨hcreated, hstarted⟩ hn
      case neg =>
        have hacq := Acquired.upsert h.toBase h.single ho hm hfault
        split
        case isTrue  =>
          exact .trans hret <| createContainer_acquired hbase (by simp [hreg]) (only_of_singleton hreg) hm
            hnew fun _ => hacq.inv
        case isFalse =>
          subst hm
          exact hacq.activate

-- A registered record that is replaced is cleaned up, whatever comes after.
theorem renew_acquired (replace : Bool) (h : Inv moduleId m) (ho : Only key m) (hm : request.moduleId = moduleId)
    (hnew : ∀ containerId ∈ answers.created, ¬m.Faulty containerId)
    (hfound : ∀ {f}, answers.found = some (some f) → f.adoptable = true → m.Faulty f.containerId →
      (replace = true ∨ (m.registered key).any (·.snd.state = .tainted) = true) ∧ answers.created.isSome = true ∧
        answers.started = true) :
    Acquired moduleId key m (m.renew request key replace answers).fst (m.renew request key replace answers).snd ∧
      ∀ {ref record}, m.registered key = some (ref, record) → replace = true ∨ record.state = .tainted →
        .cleanup record.containerId ∈ (m.renew request key replace answers).fst.events := by
  simp only [renew]
  split
  case isTrue hr =>
    have hret : Retires m (m.replaceRecord key) := .replaceRecord
    have hacq := adoptOrCreate_acquired
      (decide (replace = true ∨ (m.registered key).any (·.snd.state = .tainted) = true)) h.replaceRecord (only_replaceRecord (k := key) ho) hm
      (fun id hid hfault => hnew id hid (hret.faulty.mp hfault))
      (fun hf had hfault => by simpa using hfound hf had (hret.faulty.mp hfault))
    exact ⟨.trans hret hacq, fun hreg _ => hacq.cleanup (cleanup_replaceRecord hreg)⟩
  case isFalse hr =>
    refine ⟨adoptOrCreate_acquired _ h ho hm hnew (fun hf had hfault => by simpa using hfound hf had hfault), ?_⟩
    intro ref record hreg hrep
    refine absurd ⟨by simp [hreg], ?_⟩ hr
    simpa [hreg] using hrep

variable {q : Acquisition}

def displaced (q : Acquisition) : Bool :=
  q.answers.listed.any fun listed => listed.any (displaces q.key q.request.name)

-- The container adopted by name has no fault, or it is replaced by a new one at once; and the listing does not
-- take a record from the registry whose container has a fault.
structure Admits (m : Manager) (q : Acquisition) : Prop where
  adopted : ∀ {f}, q.answers.found = some (some f) → f.adoptable = true → m.Faulty f.containerId →
    (q.replace = true ∨ (m.registered q.key).isSome = true ∧ displaced q = false) ∧
      q.answers.created.isSome = true ∧ q.answers.started = true
  listed  : ∀ {ref record}, m.registered q.key = some (ref, record) → m.Faulty record.containerId → displaced q = false

-- The record of a faulty container is still registered after the module's containers are retired, or it is cleaned up.
def Stays (key : String) (m m' : Manager) : Prop :=
  ∀ {k ref record}, m.registered k = some (ref, record) → m.Faulty record.containerId →
    m'.registered key = some (ref, record) ∨ .cleanup record.containerId ∈ m'.events

theorem only_registered {k : String} (ho : Only key m) (h : m.registered k = some (ref, record)) : k = key :=
  ho _ (Assoc.mem_of_get (registered_eq_some.mp h).left)

theorem Inv.retire {listed : List Listed} (h : Inv moduleId m) (ha : Admits m q)
    (hl : q.answers.listed = some listed) :
    let m' := (m.retireOtherModuleContainers moduleId q.key).retireDiscoveredModuleContainers q.key q.request.name listed
    Inv moduleId m' ∧ Retires m m' ∧ Only q.key m' ∧ Stays q.key m m' ∧
      (displaced q = false → (m.registered q.key).isSome = true → (m'.registered q.key).isSome = true) := by
  obtain ⟨h₁, hret, ho₁⟩ := h.retireOther q.key
  obtain ⟨h₂, hret₂, ho₂, hsame⟩ := h₁.retireDiscoveredModuleContainers ho₁ q.request.name listed
  have hd : displaced q = listed.any (displaces q.key q.request.name) := by
    simp [displaced, hl]
  refine ⟨h₂, hret.toRetires.trans hret₂, ho₂, ?_, ?_⟩
  · intro k ref record hreg hf
    cases hret.registered hreg with
    | inr hc  => exact .inr (hret₂.cleanup hc.right)
    | inl hr₁ =>
      obtain rfl := only_registered ho₁ hr₁
      exact .inl ((hsame (hd ▸ ha.listed hreg hf)).trans hr₁)
  · intro hdis hreg
    obtain ⟨⟨ref, record⟩, hreg⟩ := Option.isSome_iff_exists.mp hreg
    rw [hsame (hd ▸ hdis)]
    cases hret.registered hreg with
    | inl hr₁ => exact Option.isSome_of_eq_some hr₁
    | inr hc  => exact absurd rfl hc.left

theorem acquire_acquired (h : Inv moduleId m) (hm : q.request.moduleId = moduleId) (ha : Admits m q)
    (hnew : ∀ containerId ∈ q.answers.created, containerId ∉ m.seen) :
    Acquired moduleId q.key m (m.acquire q).fst (m.acquire q).snd ∧
      ((m.acquire q).snd.isSome = true → ∀ {k ref record}, m.registered k = some (ref, record) →
        m.Faulty record.containerId → .cleanup record.containerId ∈ (m.acquire q).fst.events) := by
  have hnf : ∀ containerId ∈ q.answers.created, ¬m.Faulty containerId :=
    fun containerId hc hf => hnew containerId hc (h.seen hf)
  simp only [acquire, acquireLocked]
  split
  case isTrue  => exact ⟨.of_inv h .refl, fun hs => by cases hs⟩
  case isFalse =>
    split
    case h_1 =>
      obtain ⟨h₁, hret, -⟩ := h.retireOther q.key
      subst hm
      exact ⟨.of_inv h₁ hret.toRetires, fun hs => by cases hs⟩
    case h_2 listed hl =>
      obtain ⟨h₂, hret, ho, hstay, hsome⟩ := h.retire ha hl
      rw [hm]
      generalize (m.retireOtherModuleContainers moduleId q.key).retireDiscoveredModuleContainers q.key q.request.name
        listed = m₂ at h₂ hret ho hstay hsome ⊢
      have hnf₂ : ∀ containerId ∈ q.answers.created, ¬m₂.Faulty containerId :=
        fun containerId hc hf => hnf containerId hc (hret.faulty.mp hf)
      have hfound : ∀ {f}, q.answers.found = some (some f) → f.adoptable = true → m₂.Faulty f.containerId →
          (q.replace = true ∨ (m₂.registered q.key).isSome = true) ∧ q.answers.created.isSome = true ∧
            q.answers.started = true := by
        intro f hf had hfault
        obtain ⟨hr, hc⟩ := ha.adopted hf had (hret.faulty.mp hfault)
        exact ⟨hr.imp_right fun hr => hsome hr.right hr.left, hc⟩
      split
      case h_1 hnone =>
        obtain ⟨hacq, -⟩ := renew_acquired q.replace h₂ ho hm hnf₂ fun hf had hfault => by
          simpa [hnone] using hfound hf had hfault
        refine ⟨hacq.trans hret, fun _ {k ref record} hreg hf => ?_⟩
        cases hstay hreg hf with
        | inl hr => simp [hnone] at hr
        | inr hc => exact hacq.cleanup hc
      case h_2 ref record hreg =>
        obtain ⟨hget, hrec⟩ := registered_eq_some.mp hreg
        obtain ⟨record', hrec', hsound⟩ := h₂.sound (Assoc.mem_of_get hget)
        obtain rfl := Option.some.inj (hrec.symm.trans hrec')
        -- Whatever is renewed under the key, a faulty container is cleaned up on the way.
        have hrenew : ∀ (m₃ : Manager) (record₃ : ModuleContainerRecord), Inv moduleId m₃ → Retires m₂ m₃ →
            m₃.registry = m₂.registry → m₃.registered q.key = some (ref, record₃) →
            record₃.containerId = record.containerId → (q.replace = true ∨ record₃.state = .tainted) →
            Acquired moduleId q.key m (m₃.renew q.request q.key q.replace q.answers).fst
                (m₃.renew q.request q.key q.replace q.answers).snd ∧
              ((m₃.renew q.request q.key q.replace q.answers).snd.isSome = true →
                ∀ {k ref record}, m.registered k = some (ref, record) → m.Faulty record.containerId →
                  .cleanup record.containerId ∈ (m₃.renew q.request q.key q.replace q.answers).fst.events) := by
          intro m₃ record₃ h₃ hret₃ hregistry hreg₃ hid hrep
          obtain ⟨hacq, hclean⟩ := renew_acquired q.replace h₃ (fun e he => ho e (hregistry ▸ he)) hm
            (fun id hid hf => hnf₂ id hid (hret₃.faulty.mp hf)) fun hf had hfault =>
              ⟨hrep.imp_right fun ht => by simp [hreg₃, ht], (hfound hf had (hret₃.faulty.mp hfault)).right⟩
          refine ⟨hacq.trans (hret.trans hret₃), fun _ {k ref' record'} hr hf => ?_⟩
          cases hstay hr hf with
          | inr hc => exact hacq.cleanup (hret₃.cleanup hc)
          | inl hs =>
            obtain ⟨-, rfl⟩ := Prod.mk.inj (Option.some.inj (hs.symm.trans hreg))
            exact hid ▸ hclean hreg₃ hrep
        split
        case isTrue hrep =>
          refine hrenew m₂ record h₂ .refl rfl hreg rfl (hrep.imp_right fun hs => ?_)
          simpa [hsound.replacing] using hs
        case isFalse hrep =>
          simp only [List.mem_cons, List.not_mem_nil, or_false, not_or] at hrep
          split
          case isTrue     => exact ⟨.of_inv h₂ hret, fun hs => by cases hs⟩
          case isFalse hrun =>
            have husable : record.state ∈ [.idle, .queued] := by
              cases hst : record.state <;> simp_all
            have hunhealthy := hrenew
              (m₂.update ref fun r => { r with state := .tainted, taintReason := some "health_check_failed" })
              { record with state := .tainted, taintReason := some "health_check_failed" }
              (h₂.update (by simp) (by simp) (by simp)) (.of_events rfl) rfl
              (registered_eq_some.mpr ⟨hget, by rw [getElem?_update, if_pos rfl, hrec]; rfl⟩) rfl (.inr rfl)
            split
            case h_1 => exact ⟨.of_inv h₂ hret, fun hs => by cases hs⟩
            case h_2 => exact hunhealthy
            case h_3 =>
              split
              case isFalse => exact hunhealthy
              case isTrue  =>
                refine ⟨Acquired.activate ?_, fun _ {k ref' record'} hr hf => ?_⟩
                · exact {
                    toRetires := hret.trans (.of_events rfl)
                    inv       := h₂.update (by simp) (by simp) fun hr _ => by
                      obtain rfl := Option.some.inj (hr.symm.trans hrec)
                      exact ⟨by simp, fun _ => hsound.usable husable⟩
                    got       := by
                      intro ref' he
                      obtain rfl := Option.some.inj he
                      exact ⟨registry_of_get h₂.single hget, _, by rw [getElem?_update, if_pos rfl, hrec]; rfl, rfl⟩
                  }
                · cases hstay hr hf with
                  | inr hc => exact hc
                  | inl hs =>
                    obtain ⟨-, rfl⟩ := Prod.mk.inj (Option.some.inj (hs.symm.trans hreg))
                    exact absurd (hret.faulty.mpr hf) (hsound.usable husable)

end Acquire

section Exec

variable {runId reason : String} {outcome : Outcome}

-- The exec shows that the container must not be used again.
def findsFault : Outcome → Bool
  | .exited _           => false
  | .timeout            => true
  | .failed _ inspected => !recoverIdle inspected

-- The container has no fault, and if the exec finds one then no other registered record is of that container.
structure AdmitsExec (m : Manager) (ref : Nat) (outcome : Outcome) : Prop where
  sound : ∀ {record}, m.records[ref]? = some record → record.state ≠ .running → ¬m.Faulty record.containerId
  alone : ∀ {record}, m.records[ref]? = some record → record.state ≠ .running → findsFault outcome = true →
    ∀ {key ref' record'}, m.registered key = some (ref', record') → record'.containerId = record.containerId →
      ref' = ref

theorem Inv.log_exec {containerId : String} (h : Inv moduleId m) (hf : ¬m.Faulty containerId) :
    Inv moduleId (m.log (.exec containerId)) where
  noReuse  := noReuse_log h.noReuse fun c hc => by cases hc; exact hf
  known    := h.known
  seen hc  := h.seen (by simpa [Faulty, log] using hc)
  single   := h.single
  sound he := by
    obtain ⟨record, hr, hs⟩ := h.sound he
    exact ⟨record, hr, hs.module, hs.replacing, fun hu => by simpa [log] using hs.usable hu⟩

-- A fault may be noted once no usable record of the container is registered.
theorem Inv.log_fault {containerId : String} (h : Inv moduleId m) (hseen : containerId ∈ m.seen)
    (hs : ∀ {key ref record}, m.registered key = some (ref, record) → record.containerId = containerId →
      record.state ∉ [.idle, .queued]) : Inv moduleId (m.log (.fault containerId)) where
  noReuse  := noReuse_log h.noReuse fun c hc => by cases hc
  known    := h.known
  seen hc  := by
    cases faulty_log.mp hc with
    | inl hc => exact h.seen hc
    | inr hc =>
      cases hc
      exact hseen
  single   := h.single
  sound he := by
    obtain ⟨record, hr, hsound⟩ := h.sound he
    refine ⟨record, hr, hsound.module, hsound.replacing, fun hu hf => ?_⟩
    cases faulty_log.mp hf with
    | inl hf => exact hsound.usable hu hf
    | inr hf =>
      have hreg := registered_eq_some.mpr ⟨get_of_mem_registry h.single he, hr⟩
      exact hs hreg (by simpa using hf) hu

theorem Inv.execTask (h : Inv moduleId m) (ha : AdmitsExec m ref outcome) :
    Inv moduleId (m.execTask ref runId outcome) := by
  rw [Manager.execTask]
  split
  case h_1 => exact h
  case h_2 record hr =>
    split
    case isTrue       => exact h
    case isFalse hrun =>
      have hf : ¬m.Faulty record.containerId := ha.sound hr hrun
      let m₁ := (m.update ref fun r => { r with lastRunId := some runId }).log (.exec record.containerId)
      have h₁ : Inv moduleId m₁ :=
        Inv.log_exec (h.update (by simp) (by simp) fun _ hs => ⟨hs.replacing, hs.usable⟩) hf
      have hf₁ : ¬m₁.Faulty record.containerId := by
        simpa [m₁, Faulty, log, Manager.update] using hf
      have hr₁ : m₁.records[ref]? = some { record with lastRunId := some runId } := by
        simp only [m₁, log]
        rw [getElem?_update, if_pos rfl, hr]
        rfl
      -- The record goes idle in a container without a fault.
      have hidle : Inv moduleId (m₁.update ref fun r => { r with state := .idle }) := by
        refine h₁.update (by simp) (by simp) fun hr' _ => ⟨by simp, fun _ => ?_⟩
        obtain rfl := Option.some.inj (hr₁.symm.trans hr')
        exact hf₁
      have hfault : findsFault outcome = true → ∀ {g : ModuleContainerRecord → ModuleContainerRecord},
          (∀ r, (g r).containerId = r.containerId) → (∀ r, (g r).moduleId = r.moduleId) →
          (∀ r, (g r).state = .tainted ∨ (g r).state = .running) →
          Inv moduleId ((m₁.update ref g).log (.fault record.containerId)) := by
        intro hfinds g hc hm hg
        have hg' : ∀ r, (g r).state ≠ .replacing ∧ (g r).state ∉ [.idle, .queued] := by
          intro r
          cases hg r with
          | inl hg => simp [hg]
          | inr hg => simp [hg]
        refine Inv.log_fault (h₁.update hc hm fun _ _ => ⟨(hg' _).left, fun hu => absurd hu (hg' _).right⟩)
          (h.known record (List.mem_of_getElem? hr)) ?_
        intro key ref' record' hreg hid
        obtain ⟨hget, hrec⟩ := registered_eq_some.mp hreg
        by_cases he : ref = ref'
        case pos =>
          subst he
          rw [getElem?_update, if_pos rfl, hr₁] at hrec
          obtain rfl := Option.some.inj hrec
          exact (hg' _).right
        case neg =>
          simp only [m₁, log] at hrec
          rw [getElem?_update, if_neg he, getElem?_update, if_neg he] at hrec
          exact absurd (ha.alone hr hrun hfinds (registered_eq_some.mpr ⟨hget, hrec⟩) hid).symm he
      split
      case h_1 => exact hidle
      case h_2 => exact hfault rfl (by simp [markTainted]) (by simp [markTainted]) (by simp [markTainted])
      case h_3 => exact hfault rfl (by simp) (by simp) (by simp)
      case h_4 error inspected _ =>
        split
        case isTrue      => exact hidle
        case isFalse hri =>
          exact hfault (by simpa [findsFault] using hri) (by simp [markTainted]) (by simp [markTainted])
            (by simp [markTainted])

theorem Inv.markSlotRootCompromised (h : Inv moduleId m) : Inv moduleId (m.markSlotRootCompromised key reason) := by
  rw [Manager.markSlotRootCompromised]
  split
  case h_1 => exact h
  case h_2 ref record hreg =>
    obtain ⟨hget, hrec⟩ := registered_eq_some.mp hreg
    refine Inv.log_fault (h.update (by simp [markTainted]) (by simp [markTainted]) (by simp [markTainted]))
      (h.known record (List.mem_of_getElem? hrec)) ?_
    intro k ref' record' hreg' _
    obtain ⟨hget', hrec'⟩ := registered_eq_some.mp hreg'
    have he := (registry_of_get h.single hget').symm.trans (registry_of_get h.single hget)
    simp only [List.cons.injEq, Prod.mk.injEq, and_true] at he
    rw [he.right, getElem?_update, if_pos rfl, hrec] at hrec'
    obtain rfl := Option.some.inj hrec'
    simp [markTainted]

-- The mark is harmless unless it meets a record that is tainted.
theorem Inv.markRunFailed (h : Inv moduleId m)
    (ht : ∀ {ref record}, m.registered key = some (ref, record) → record.state ≠ .tainted) :
    Inv moduleId (m.markRunFailed key) := by
  rw [Manager.markRunFailed]
  split
  case h_1 => exact h
  case h_2 ref record hreg =>
    split
    case isTrue       => exact h
    case isFalse hrun =>
      refine h.update (by simp) (by simp) fun hr hs => ⟨by simp, fun _ => hs.usable ?_⟩
      obtain rfl := Option.some.inj ((registered_eq_some.mp hreg).right.symm.trans hr)
      have hrep := hs.replacing
      have htaint := ht hreg
      cases hst : record.state <;> simp_all

theorem execTask_registry : (m.execTask ref runId outcome).registry = m.registry := by
  rw [execTask]
  split
  case h_1 => rfl
  case h_2 =>
    split
    case isTrue  => rfl
    case isFalse =>
      split
      case h_4 => split <;> rfl
      all_goals rfl

theorem execTask_cleanup {containerId : String} (h : .cleanup containerId ∈ m.events) :
    .cleanup containerId ∈ (m.execTask ref runId outcome).events := by
  rw [execTask]
  split
  case h_1 => exact h
  case h_2 =>
    split
    case isTrue  => exact h
    case isFalse =>
      split
      case h_4 => split <;> simp [update, log, h]
      all_goals simp [update, log, h]

-- The record is left tainted.
def marks : Outcome → Bool
  | .failed _ .raised => false
  | outcome           => findsFault outcome

theorem execTask_state (runId : String) (outcome : Outcome) (hr : m.records[ref]? = some record) (hs : record.state = .idle) :
    ∃ record', (m.execTask ref runId outcome).records[ref]? = some record' ∧ record'.moduleId = record.moduleId ∧
      (marks outcome = false → record'.state ≠ .tainted) := by
  have hrun : ¬record.state = .running := by simp [hs]
  have hexec : ((m.update ref fun r => { r with lastRunId := some runId }).log (.exec record.containerId)).records[ref]? =
      some { record with lastRunId := some runId } := getElem?_update_self hr
  simp only [execTask, hr, if_neg hrun]
  split
  case h_1 => exact ⟨_, getElem?_update_self hexec, rfl, fun _ => by simp⟩
  case h_2 => exact ⟨_, getElem?_update_self hexec, rfl, fun hn => by cases hn⟩
  case h_3 => exact ⟨_, getElem?_update_self hexec, rfl, fun _ => by simp⟩
  case h_4 error inspected hne =>
    split
    case isTrue hri  => exact ⟨_, getElem?_update_self hexec, rfl, fun _ => by simp⟩
    case isFalse hri =>
      refine ⟨_, getElem?_update_self hexec, rfl, fun hn => ?_⟩
      have hm : marks (.failed error inspected) = !recoverIdle inspected := by
        cases inspected with
        | raised => exact absurd rfl hne
        | result => rfl
        | caught => rfl
      rw [hm] at hn
      simp [hri] at hn

end Exec

section Calls

variable {q : Acquisition} {runId : String} {outcome : Outcome} {a : Action}

-- The condition on a step: see `Admits` and `AdmitsExec`; and an exec whose end marks the record is not followed by
-- `mark_run_failed`.
def Admitted (m : Manager) : Action → Prop
  | .acquire q                                        => Admits m q
  | .execTask ref _ outcome                           => AdmitsExec m ref outcome
  | .runModuleTransaction .done q _ _                 => Admits m q
  | .runCandidateTestTransaction .done q _ outcome    => Admits m q ∧ marks outcome = false
  | .runModuleExec q _ outcome                        => Admits m q ∧ (outcome = .timeout ∨ marks outcome = false)
  | _                                                 => True

-- The action is a call on the module.
def On (moduleId : String) (a : Action) : Prop :=
  ∀ q ∈ a.acquisition, q.request.moduleId = moduleId

-- What a call leaves behind that acquires a container.
structure Called (moduleId : String) (q : Acquisition) (m m' : Manager) (res : Option Nat) : Prop where
  inv : Inv moduleId m'
  got : ∀ {ref}, res = some ref →
    (∃ record, m'.records[ref]? = some record ∧ record.moduleId = moduleId ∧ m'.registry = [(q.key, ref)]) ∧
      ∀ {k ref record}, m.registered k = some (ref, record) → m.Faulty record.containerId →
        .cleanup record.containerId ∈ m'.events

theorem acquire_called (h : Inv moduleId m) (hm : q.request.moduleId = moduleId) (ha : Admits m q)
    (hnew : ∀ containerId ∈ q.answers.created, containerId ∉ m.seen) :
    Called moduleId q m (m.acquire q).fst (m.acquire q).snd := by
  obtain ⟨hacq, hclean⟩ := acquire_acquired h hm ha hnew
  refine ⟨hacq.inv, fun {ref} hr => ⟨?_, hclean (Option.isSome_of_eq_some hr)⟩⟩
  obtain ⟨hreg, record, hrec, -⟩ := hacq.got hr
  obtain ⟨record', hrec', hs⟩ := hacq.inv.sound (hreg ▸ List.mem_singleton_self _)
  exact ⟨record', hrec', hs.module, hreg⟩

-- The record acquired is idle and the only one, so that it may execute a command.
theorem Acquired.admitsExec {res : Option Nat} (h : Acquired moduleId key m m' res) (hr : res = some ref) :
    AdmitsExec m' ref outcome := by
  obtain ⟨hreg, record, hrec, hidle⟩ := h.got hr
  obtain ⟨record', hrec', hs⟩ := h.inv.sound (hreg ▸ List.mem_singleton_self _)
  obtain rfl := Option.some.inj (hrec.symm.trans hrec')
  constructor
  case sound =>
    intro record' hr' _
    obtain rfl := Option.some.inj (hrec.symm.trans hr')
    exact hs.usable (by simp [hidle])
  case alone =>
    intro _ _ _ _ k ref' record' hreg' _
    have hm := Assoc.mem_of_get (registered_eq_some.mp hreg').left
    rw [hreg, List.mem_singleton] at hm
    exact (Prod.mk.inj hm).right

theorem acquireAndExec_called (runId : String) (outcome : Outcome) (h : Inv moduleId m) (hm : q.request.moduleId = moduleId) (ha : Admits m q)
    (hnew : ∀ containerId ∈ q.answers.created, containerId ∉ m.seen) :
    Called moduleId q m (m.acquireAndExec q runId outcome).fst (m.acquireAndExec q runId outcome).snd ∧
      (marks outcome = false → ∀ {ref ref' record}, (m.acquireAndExec q runId outcome).snd = some ref →
        (m.acquireAndExec q runId outcome).fst.registered q.key = some (ref', record) → record.state ≠ .tainted) := by
  obtain ⟨hacq, hclean⟩ := acquire_acquired h hm ha hnew
  simp only [acquireAndExec]
  split
  case h_1 m₁ he =>
    rw [he] at hacq
    exact ⟨⟨hacq.inv, fun hr => by cases hr⟩, fun _ _ _ _ hr => by cases hr⟩
  case h_2 m₁ ref he =>
    rw [he] at hacq hclean
    obtain ⟨hreg, record, hrec, hidle⟩ := hacq.got rfl
    obtain ⟨record₂, hrec₂, hmod, hstate⟩ := execTask_state runId outcome hrec hidle
    obtain ⟨record', hrec', hs⟩ := hacq.inv.sound (hreg ▸ List.mem_singleton_self _)
    obtain rfl := Option.some.inj (hrec.symm.trans hrec')
    refine ⟨⟨hacq.inv.execTask (hacq.admitsExec rfl), fun hr => ?_⟩, fun hn ref' ref'' record'' _ hreg'' => ?_⟩
    · cases hr
      refine ⟨⟨record₂, hrec₂, hmod.trans hs.module, execTask_registry.trans hreg⟩, fun hr hf => ?_⟩
      exact execTask_cleanup (hclean rfl hr hf)
    · obtain ⟨hget, hrec''⟩ := registered_eq_some.mp hreg''
      rw [execTask_registry, hreg] at hget
      have he : ref = ref'' := by simpa [Assoc.get] using hget
      subst he
      obtain rfl := Option.some.inj (hrec₂.symm.trans hrec'')
      exact hstate hn

theorem markRunFailed_frame (m : Manager) (key : String) : (m.markRunFailed key).registry = m.registry ∧ (m.markRunFailed key).events = m.events ∧
    ∀ {ref : Nat} {record : ModuleContainerRecord}, m.records[ref]? = some record →
      ∃ record' : ModuleContainerRecord, (m.markRunFailed key).records[ref]? = some record' ∧
        record'.moduleId = record.moduleId := by
  rw [markRunFailed]
  split
  case h_1 => exact ⟨rfl, rfl, fun hr => ⟨_, hr, rfl⟩⟩
  case h_2 ref' _ _ =>
    split
    case isTrue  => exact ⟨rfl, rfl, fun hr => ⟨_, hr, rfl⟩⟩
    case isFalse =>
      refine ⟨rfl, rfl, fun {ref record} hr => ?_⟩
      by_cases he : ref' = ref
      case pos =>
        subst he
        exact ⟨_, getElem?_update_self hr, rfl⟩
      case neg =>
        rw [getElem?_update, if_neg he]
        exact ⟨record, hr, rfl⟩

theorem Called.markRunFailed {res : Option Nat} (h : Called moduleId q m m' res)
    (ht : ∀ {ref record}, m'.registered q.key = some (ref, record) → record.state ≠ .tainted) :
    Called moduleId q m (m'.markRunFailed q.key) res where
  inv    := h.inv.markRunFailed ht
  got hr := by
    obtain ⟨hreg, hev, hrecs⟩ := markRunFailed_frame m' q.key
    obtain ⟨⟨record, hrec, hmod, hsing⟩, hclean⟩ := h.got hr
    obtain ⟨record', hrec', hmod'⟩ := hrecs hrec
    exact ⟨⟨record', hrec', hmod'.trans hmod, hreg.trans hsing⟩, fun hr hf => hev ▸ hclean hr hf⟩

-- An exec in the acquired record, and what follows it when it failed
theorem followed_called {p : Prop} [Decidable p] (h : Inv moduleId m) (hm : q.request.moduleId = moduleId)
    (ha : Admits m q) (hnew : ∀ containerId ∈ q.answers.created, containerId ∉ m.seen)
    (hp : p → marks outcome = false) :
    let r := match m.acquireAndExec q runId outcome with
      | (m, none)     => (m, none)
      | (m, some ref) => (if p then m.markRunFailed q.key else m, some ref)
    Called moduleId q m r.fst r.snd := by
  obtain ⟨hc, ht⟩ := acquireAndExec_called runId outcome h hm ha hnew
  generalize m.acquireAndExec q runId outcome = r at hc ht ⊢
  obtain ⟨m₁, res⟩ := r
  cases res with
  | none     => exact hc
  | some ref =>
    dsimp only
    split
    case isTrue hx => exact hc.markRunFailed fun hr => ht (hp hx) rfl hr
    case isFalse   => exact hc

-- Every admitted call keeps the invariant; one that acquires a container has the only record of the module.
theorem call_called (h : Inv moduleId m) (hon : On moduleId a) (ha : Admitted m a)
    (hnew : ∀ q ∈ a.acquisition, ∀ containerId ∈ q.answers.created, containerId ∉ m.seen) :
    Inv moduleId (m.call a).fst ∧
      ∀ {q}, a.acquisition = some q → Called moduleId q m (m.call a).fst (m.call a).snd := by
  have of_called : ∀ {q₀}, a.acquisition = some q₀ → Called moduleId q₀ m (m.call a).fst (m.call a).snd →
      Inv moduleId (m.call a).fst ∧
        ∀ {q}, a.acquisition = some q → Called moduleId q m (m.call a).fst (m.call a).snd := by
    intro q₀ hq hc
    refine ⟨hc.inv, fun hq' => ?_⟩
    obtain rfl := Option.some.inj (hq.symm.trans hq')
    exact hc
  cases a with
  | acquire q                                     => exact of_called rfl (acquire_called h (hon q rfl) ha (hnew q rfl))
  | execTask ref runId outcome                    => exact ⟨h.execTask ha, fun hq => by cases hq⟩
  | markSlotRootCompromised key reason            => exact ⟨h.markSlotRootCompromised, fun hq => by cases hq⟩
  | runModuleTransaction prepared q runId outcome =>
    cases prepared with
    | done               => exact of_called rfl (acquireAndExec_called runId outcome h (hon q rfl) ha (hnew q rfl)).left
    | compromised reason => exact ⟨h, fun hq => by cases hq⟩
    | failed             => exact ⟨h, fun hq => by cases hq⟩
  | runCandidateTestTransaction prepared q runId outcome =>
    cases prepared with
    | done               =>
      exact of_called rfl (followed_called h (hon q rfl) ha.left (hnew q rfl) fun _ => ha.right)
    | compromised reason => exact ⟨h.markSlotRootCompromised, fun hq => by cases hq⟩
    | failed             => exact ⟨h, fun hq => by cases hq⟩
  | runModuleExec q runId outcome                 =>
    exact of_called rfl (followed_called h (hon q rfl) ha.left (hnew q rfl) fun hx => ha.right.resolve_left hx.right)

theorem step_called (h : Inv moduleId m) (hon : On moduleId a) (ha : Admitted m a) (hs : m.step a = some m') :
    Inv moduleId m' ∧ ∀ {q}, a.acquisition = some q → Called moduleId q m m' (m.call a).snd := by
  obtain ⟨_, hg, hs⟩ := Option.bind_eq_some_iff.mp hs
  obtain rfl := Option.some.inj hs
  refine call_called h hon ha ?_
  simpa [guard] using hg

end Calls

section Run

variable {m₀ m₁ m₂ : Manager} {as : List Action} {a : Action} {q : Acquisition}

-- In a run on one module whose steps are admitted, a container in which a fault was found executes nothing more, and
-- every acquisition ends with one record for the module, after the container of a faulty record was cleaned up.
theorem tainted_never_reused (hi : containers.init m₀) (hr : containers.run m₀ as = some m)
    (hon : ∀ a ∈ as, On moduleId a)
    (ha : ∀ {m₁ a m₂}, containers.Occurs m₀ as m₁ a m₂ → Admitted m₁ a) :
    NoReuse m.events ∧
      ∀ {m₁ a m₂ q ref}, containers.Occurs m₀ as m₁ a m₂ → a.acquisition = some q → (m₁.call a).snd = some ref →
        (∃ record, m₂.records[ref]? = some record ∧ record.moduleId = moduleId ∧ m₂.registry = [(q.key, ref)]) ∧
          ∀ {k ref record}, m₁.registered k = some (ref, record) → m₁.Faulty record.containerId →
            .cleanup record.containerId ∈ m₂.events := by
  have hstep : ∀ {m₁ a m₂}, containers.Occurs m₀ as m₁ a m₂ → Inv moduleId m₁ →
      Inv moduleId m₂ ∧ ∀ {q}, a.acquisition = some q → Called moduleId q m₁ m₂ (m₁.call a).snd :=
    fun ho h => step_called h (hon _ ho.mem) (ha ho) ho.step
  have hinit : Inv moduleId m₀ := hi ▸ init_inv
  constructor
  case left  => exact (TransitionSystem.Occurs.run_invariant hinit (fun ho h => (hstep ho h).left) hr).noReuse
  case right =>
    intro m₁ a m₂ q ref ho hq hc
    have h₁ : Inv moduleId m₁ := ho.invariant hinit fun ho h => (hstep ho h).left
    exact ((hstep ho h₁).right hq).got hc

-- A request for the module `m`, whose container gets the id `containerId` if one is created.
def moduleRequest (containerId : String) : Acquisition where
  request := { name := "bridle-mod-m", moduleId := "m", boundaryFingerprint := "b", imageVersion := "i", valid := true }
  key     := "k"
  replace := false
  answers := {
    listed    := some []
    inspected := .result { status := "running", health := "healthy" }
    found     := some none
    created   := some containerId
    started   := true
  }

theorem admits_moduleRequest {containerId : String} : Admits m (moduleRequest containerId) where
  adopted hf  := by cases hf
  listed _ _  := rfl

def timedOut : Action :=
  .runModuleTransaction .done (moduleRequest "c1") "r1" .timeout

def next : Action :=
  .runCandidateTestTransaction .done (moduleRequest "c2") "r2" (.exited 0)

theorem run_replaced : ∃ m, containers.run .init [timedOut, next] = some m ∧
    m.events = [.exec "c1", .fault "c1", .cleanup "c1", .exec "c2"] :=
  ⟨_, rfl, rfl⟩

theorem tainted_replaced : NoReuse [.exec "c1", .fault "c1", .cleanup "c1", .exec "c2"] := by
  obtain ⟨m, hr, he⟩ := run_replaced
  have hon : ∀ a ∈ [timedOut, next], On "m" a := by
    intro a ha q hq
    simp only [List.mem_cons, List.not_mem_nil, or_false] at ha
    cases ha with
    | inl ha => subst ha; cases hq; rfl
    | inr ha => subst ha; cases hq; rfl
  have hadm : ∀ {m₁ a m₂}, containers.Occurs .init [timedOut, next] m₁ a m₂ → Admitted m₁ a := by
    intro m₁ a m₂ ho
    have hmem := ho.mem
    simp only [List.mem_cons, List.not_mem_nil, or_false] at hmem
    cases hmem with
    | inl ha => exact ha ▸ admits_moduleRequest
    | inr ha => exact ha ▸ ⟨admits_moduleRequest, rfl⟩
  exact he ▸ (tainted_never_reused rfl hr hon hadm).left

-- After a timeout in a candidate's transaction `mark_run_failed` clears the taint, and the container is used again.
theorem tainted_reused :
    ∃ m, containers.run .init
        [.runCandidateTestTransaction .done (moduleRequest "c1") "r1" .timeout, next] = some m ∧
      m.events = [.exec "c1", .fault "c1", .exec "c1"] ∧ ¬NoReuse m.events := by
  refine ⟨_, rfl, rfl, fun h => ?_⟩
  have h' : NoReuse [.exec "c1", .fault "c1", .exec "c1"] := h
  simp [NoReuse] at h'

end Run

end Container.Manager
