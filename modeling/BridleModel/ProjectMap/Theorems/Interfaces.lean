import BridleModel.Json.Canonical
import BridleModel.ProjectMap.Interfaces

open Except

namespace ProjectMap

variable {db db' : SemanticMap} {c : InterfaceSketch} {cs : List InterfaceSketch}
  {prior : Option InterfaceCandidate} {row row' : InterfaceCandidate} {id : String}

theorem interfaceId_inj {a b : String} : interfaceId a = interfaceId b ↔ a = b :=
  String.append_right_inj _

theorem InterfaceSketch.statusKey_id {d : InterfaceSketch} (h : c.statusKey = d.statusKey) : c.id = d.id :=
  congrArg StatusKey.id h

namespace SemanticMap

theorem eq_of_id (h : row ∈ db.interfaces) (h' : row' ∈ db.interfaces) (he : row.id = row'.id) : row = row' :=
  Table.eq_of_mem_keys h h' (List.mem_singleton_self _) (he ▸ List.mem_singleton_self _)

-- The published interfaces are those of the confirmed candidates.
structure Sound (db : SemanticMap) : Prop where
  published : ∀ i ∈ db.published, ∃ row ∈ db.interfaces, row.status = .confirmed ∧ i = row.interface
  confirmed : ∀ row ∈ db.interfaces, row.status = .confirmed → row.interface ∈ db.published

def Unconfirmed (db : SemanticMap) (id : String) : Prop :=
  ∀ row ∈ db.interfaces, row.id = id → row.status ≠ .confirmed

section Replace

theorem mem_replace_interface {t : Table InterfaceCandidate fun row => [row.id]} :
    row ∈ t.replace row' ↔ (row ∈ t ∧ row.id ≠ row'.id) ∨ row = row' := by
  simp [Table.mem_replace]

theorem mem_replace_published {t : Table ModuleInterface fun row => [row.id]} {i j : ModuleInterface} :
    i ∈ t.replace j ↔ (i ∈ t ∧ i.id ≠ j.id) ∨ i = j := by
  simp [Table.mem_replace]

end Replace

section MarkStale

theorem mem_markStale (h : row ∈ db.markStale.interfaces) : row.status ≠ .confirmed := by
  have ⟨r, _, he⟩ := List.mem_map.mp h
  split at he
  case isTrue       => subst he; simp
  case isFalse live =>
    subst he
    intro hc
    simp [hc, CandidateStatus.live] at live

theorem Sound.markStale_published (h : db.Sound) (i : ModuleInterface) : i ∉ db.markStale.published := by
  intro hi
  have ⟨hi, hn⟩ := Table.mem_delete.mp hi
  have ⟨row, hr, hs, he⟩ := h.published i hi
  have hm : { row with status := .stale } ∈ db.interfaces.modify (·.status.live) ({ · with status := .stale })
      (Table.keep fun _ => rfl) :=
    Table.mem_modify.mpr ⟨row, hr, by simp [hs, CandidateStatus.live]⟩
  have := List.any_eq_false.mp hn _ hm
  simp [he, InterfaceCandidate.interface] at this

theorem Sound.markStale (h : db.Sound) : db.markStale.Sound where
  published i hi   := absurd hi (h.markStale_published i)
  confirmed _ hr hs := absurd hs (mem_markStale hr)

end MarkStale

section Insert

-- The row that a refresh writes for a candidate, and what it publishes
structure Inserts (db : SemanticMap) (prior : Option InterfaceCandidate) (c : InterfaceSketch)
    (row : InterfaceCandidate) (db' : SemanticMap) : Prop where
  sketch      : row.toInterfaceSketch = c
  carried     : row.status = .confirmed → ∃ p, prior = some p ∧ p.status = .confirmed
  interfaces  : db'.interfaces = db.interfaces.replace row
  published   : row.status = .confirmed → db'.published = db.published.replace row.interface
  unpublished : row.status ≠ .confirmed → db'.published = db.published

theorem publish_eq (h : row ∈ db.interfaces) :
    db.publishConfirmedInterface row.id = { db with published := db.published.replace row.interface } := by
  have hl : db.interfaces.lookup row.id = some row :=
    Table.lookup_eq_some_iff.mpr ⟨h, List.mem_singleton_self _⟩
  simp only [publishConfirmedInterface, hl]

theorem insertInterface_inserts (db : SemanticMap) (prior : Option InterfaceCandidate) (c : InterfaceSketch) :
    ∃ row, Inserts db prior c row (db.insertInterface prior c) := by
  let status := ((prior.map (·.status)).filter (·.decided)).getD .candidate
  let row : InterfaceCandidate := {
    c with
    status
    confirmedAt := if status = .confirmed then prior.bind (·.confirmedAt) else none
  }
  let inserted := { db with interfaces := db.interfaces.replace row }
  have he : db.insertInterface prior c =
      if status = .confirmed then inserted.publishConfirmedInterface c.id else inserted := rfl
  have hm : row ∈ inserted.interfaces := mem_replace_interface.mpr (.inr rfl)
  have hp : inserted.publishConfirmedInterface c.id = _ := publish_eq hm
  rw [he, hp]
  refine ⟨row, rfl, fun hc => ?_, ?_, fun hc => ?_, fun hc => ?_⟩
  · cases prior with
    | none   => cases hc
    | some p =>
      refine ⟨p, rfl, ?_⟩
      have hc : ((some p.status).filter (·.decided)).getD .candidate = .confirmed := hc
      rw [Option.filter_some] at hc
      split at hc
      · exact hc
      · cases hc
  · split <;> rfl
  · rw [if_pos hc]
  · rw [if_neg hc]

theorem Sound.insertInterface (h : db.Sound) (fresh : db.Unconfirmed c.id) :
    (db.insertInterface prior c).Sound := by
  have ⟨row, w⟩ := insertInterface_inserts db prior c
  have old (r : InterfaceCandidate) (hr : r ∈ db.interfaces) (hs : r.status = .confirmed) : r.id ≠ row.id :=
    fun he => fresh r hr (he.trans (congrArg InterfaceSketch.id w.sketch)) hs
  by_cases hc : row.status = .confirmed
  case pos =>
    constructor
    · intro i hi
      rw [w.published hc] at hi
      rw [w.interfaces]
      cases mem_replace_published.mp hi with
      | inr he => exact ⟨row, mem_replace_interface.mpr (.inr rfl), hc, he⟩
      | inl hi =>
        have ⟨r, hr, hs, he⟩ := h.published i hi.1
        exact ⟨r, mem_replace_interface.mpr (.inl ⟨hr, old r hr hs⟩), hs, he⟩
    · intro r hr hs
      rw [w.interfaces] at hr
      rw [w.published hc]
      refine mem_replace_published.mpr ?_
      cases mem_replace_interface.mp hr with
      | inr he => exact .inr (he ▸ rfl)
      | inl hr => exact .inl ⟨h.confirmed r hr.1 hs, fun he => hr.2 (interfaceId_inj.mp he)⟩
  case neg =>
    constructor
    · intro i hi
      rw [w.unpublished hc] at hi
      rw [w.interfaces]
      have ⟨r, hr, hs, he⟩ := h.published i hi
      exact ⟨r, mem_replace_interface.mpr (.inl ⟨hr, old r hr hs⟩), hs, he⟩
    · intro r hr hs
      rw [w.interfaces] at hr
      rw [w.unpublished hc]
      cases mem_replace_interface.mp hr with
      | inr he => exact absurd (he ▸ hs) hc
      | inl hr => exact h.confirmed r hr.1 hs

theorem foldl_insertInterface {priors : InterfaceSketch → Option InterfaceCandidate} (h : db.Sound)
    (distinct : (cs.map (·.id)).Nodup) (fresh : ∀ c ∈ cs, db.Unconfirmed c.id) :
    (cs.foldl (fun t c => t.insertInterface (priors c) c) db).Sound := by
  induction cs generalizing db with
  | nil           => exact h
  | cons hd tl hi =>
    have ⟨hn, distinct⟩ := List.nodup_cons.mp distinct
    refine hi (h.insertInterface (fresh hd List.mem_cons_self)) distinct fun c hc row hr he => ?_
    have ⟨_, w⟩ := insertInterface_inserts db (priors hd) hd
    rw [w.interfaces] at hr
    cases mem_replace_interface.mp hr with
    | inl hr => exact fresh c (List.mem_cons_of_mem _ hc) row hr.1 he
    | inr hr =>
      have hid : row.id = hd.id := hr ▸ congrArg InterfaceSketch.id w.sketch
      exact absurd (List.mem_map.mpr ⟨c, hc, he.symm.trans hid⟩) hn

-- A confirmed row after the insertions was there before them or has been carried over.
theorem confirmed_of_foldl {priors : InterfaceSketch → Option InterfaceCandidate}
    (hr : row ∈ (cs.foldl (fun t c => t.insertInterface (priors c) c) db).interfaces)
    (hs : row.status = .confirmed) :
    row ∈ db.interfaces ∨ ∃ p, priors row.toInterfaceSketch = some p ∧ p.status = .confirmed := by
  induction cs generalizing db with
  | nil           => exact .inl hr
  | cons hd tl hi =>
    cases hi hr with
    | inr hp => exact .inr hp
    | inl hr =>
      have ⟨_, w⟩ := insertInterface_inserts db (priors hd) hd
      rw [w.interfaces] at hr
      cases mem_replace_interface.mp hr with
      | inl hr => exact .inl hr.1
      | inr he =>
        cases he
        exact .inr (w.sketch ▸ w.carried hs)

theorem mem_foldl {priors : InterfaceSketch → Option InterfaceCandidate} (distinct : (cs.map (·.id)).Nodup)
    (hc : c ∈ cs) :
    ∃ row ∈ (cs.foldl (fun t c => t.insertInterface (priors c) c) db).interfaces, row.toInterfaceSketch = c := by
  induction cs using List.reverseRecOn with
  | nil                    => cases hc
  | append_singleton l d hi =>
    rw [List.foldl_append, List.foldl_cons, List.foldl_nil]
    rw [List.map_append, List.nodup_append] at distinct
    have ⟨row, w⟩ := insertInterface_inserts (l.foldl (fun t c => t.insertInterface (priors c) c) db) (priors d) d
    rw [w.interfaces]
    cases List.mem_append.mp hc with
    | inr hc =>
      cases List.mem_singleton.mp hc
      exact ⟨row, mem_replace_interface.mpr (.inr rfl), w.sketch⟩
    | inl hc =>
      have ⟨r, hr, he⟩ := hi distinct.1 hc
      refine ⟨r, mem_replace_interface.mpr (.inl ⟨hr, ?_⟩), he⟩
      rw [he, w.sketch]
      exact distinct.2.2 c.id (List.mem_map_of_mem hc) d.id (List.mem_singleton_self _)

end Insert

section Refresh

variable {generated : Synthesis} {reason : String}

theorem insertModules_frame {priors : ModuleSketch → Option ModuleCandidate} {ms : List ModuleSketch} :
    (ms.foldl (fun t c => t.insertModule (priors c) c) db).interfaces = db.interfaces ∧
      (ms.foldl (fun t c => t.insertModule (priors c) c) db).published = db.published := by
  induction ms generalizing db with
  | nil           => exact ⟨rfl, rfl⟩
  | cons hd tl hi => exact hi

theorem insertArtifacts_frame {as : List ArtifactSketch} (h : as.foldlM insertArtifact db = .ok db') :
    db'.interfaces = db.interfaces ∧ db'.published = db.published := by
  refine foldlM_preserves (P := fun t => t.interfaces = db.interfaces ∧ t.published = db.published) ?_ ⟨rfl, rfl⟩ h
  intro t a t' ht h
  unfold insertArtifact at h
  split at h
  case h_1 => cases h
  case h_2 => cases h; exact ht

-- The rows that a refresh leaves behind
theorem refresh_rows (h : refreshSemanticMapCandidates generated reason db = .ok db') :
    let inserted := generated.interfaces.foldl (fun t c => t.insertInterface (db.priorInterface c) c)
      (generated.modules.foldl (fun t c => t.insertModule (db.priorModule c) c) db.markStale)
    db'.interfaces = inserted.interfaces ∧ db'.published = inserted.published := by
  have ⟨artifacts, ha, h⟩ := bind_eq_ok_iff.mp h
  have frame := insertArtifacts_frame ha
  cases h
  exact frame

theorem Sound.congr (h : db.Sound) (hi : db'.interfaces = db.interfaces) (hp : db'.published = db.published) :
    db'.Sound where
  published := by rw [hi, hp]; exact h.published
  confirmed := by rw [hi, hp]; exact h.confirmed

theorem Sound.refresh (hs : db.Sound) (distinct : (generated.interfaces.map (·.id)).Nodup)
    (h : refreshSemanticMapCandidates generated reason db = .ok db') : db'.Sound := by
  have ⟨hi, hp⟩ := refresh_rows h
  have ⟨hmi, hmp⟩ := @insertModules_frame db.markStale db.priorModule generated.modules
  refine Sound.congr (foldl_insertInterface (hs.markStale.congr hmi hmp) distinct fun _ _ row hr _ => ?_) hi hp
  rw [hmi] at hr
  exact mem_markStale hr

-- What is confirmed after a refresh was confirmed before it, under the same key.
theorem refresh_confirmed (h : refreshSemanticMapCandidates generated reason db = .ok db')
    (hr : row ∈ db'.interfaces) (hs : row.status = .confirmed) :
    ∃ p ∈ db.interfaces, p.status = .confirmed ∧ p.statusKey = row.statusKey := by
  have ⟨hi, _⟩ := refresh_rows h
  have ⟨hmi, _⟩ := @insertModules_frame db.markStale db.priorModule generated.modules
  rw [hi] at hr
  cases confirmed_of_foldl hr hs with
  | inl hr => exact absurd hs (mem_markStale (hmi ▸ hr))
  | inr hp =>
    have ⟨p, hp, hps⟩ := hp
    exact ⟨p, List.mem_of_find?_eq_some hp, hps, by simpa using List.find?_some hp⟩

theorem refresh_generated (distinct : (generated.interfaces.map (·.id)).Nodup) (hc : c ∈ generated.interfaces)
    (h : refreshSemanticMapCandidates generated reason db = .ok db') :
    ∃ row ∈ db'.interfaces, row.toInterfaceSketch = c :=
  (refresh_rows h).1 ▸ mem_foldl distinct hc

end Refresh

section Decide

variable {contentHash : String → String} {candidateId status actor now : String}

-- The row that the user has decided on is the only one that changes.
structure Decides (db : SemanticMap) (row : InterfaceCandidate) (decided : CandidateStatus)
    (db' : SemanticMap) : Prop where
  found      : row ∈ db.interfaces
  interfaces : ∃ confirmedAt, ∀ r, r ∈ db'.interfaces ↔
    (r ∈ db.interfaces ∧ r.id ≠ row.id) ∨ r = { row with status := decided, confirmedAt }
  published  : ∀ i, i ∈ db'.published ↔ (i ∈ db.published ∧ i.id ≠ interfaceId row.id) ∨
    (decided = .confirmed ∧ i = row.interface)

theorem mem_markInterface {status : CandidateStatus} {confirmedAt : Option String} {r : InterfaceCandidate}
    (hm : row ∈ db.interfaces) : r ∈ (db.markInterface row.id status confirmedAt).interfaces ↔
      (r ∈ db.interfaces ∧ r.id ≠ row.id) ∨ r = { row with status, confirmedAt } := by
  rw [markInterface, Table.mem_modify]
  constructor
  · intro ⟨a, ha, he⟩
    by_cases hid : a.id = row.id
    case pos =>
      cases eq_of_id ha hm hid
      exact .inr (by simpa using he.symm)
    case neg =>
      rw [if_neg (by simpa using hid)] at he
      exact .inl (he ▸ ⟨ha, hid⟩)
  · intro h
    cases h with
    | inl h => exact ⟨r, h.1, by simp [h.2]⟩
    | inr h => exact ⟨row, hm, by simp [h]⟩

theorem publish_interfaces : (db.publishConfirmedInterface id).interfaces = db.interfaces := by
  unfold publishConfirmedInterface
  split <;> rfl

theorem mem_publish {i : ModuleInterface} (hm : row ∈ db.interfaces) :
    i ∈ (db.publishConfirmedInterface row.id).published ↔
      (i ∈ db.published ∧ i.id ≠ interfaceId row.id) ∨ i = row.interface := by
  rw [publish_eq hm]
  exact mem_replace_published

theorem setInterface_decides
    (h : setModuleInterfaceCandidateStatus contentHash candidateId status actor now db = .ok db') :
    ∃ row decided, CandidateStatus.ofString? status = some decided ∧ row.id = candidateId ∧
      Decides db row decided db' := by
  unfold setModuleInterfaceCandidateStatus at h
  split at h
  case h_1 => cases h
  case h_2 decided hd =>
  split at h
  case h_1 => cases h
  case h_2 row hl =>
  have ⟨hm, hk⟩ := Table.lookup_eq_some_iff.mp hl
  have hid : candidateId = row.id := List.mem_singleton.mp hk
  subst hid
  have ⟨_, _, h⟩ := bind_eq_ok_iff.mp h
  cases h
  refine ⟨row, decided, hd, rfl, hm, ⟨if decided = .confirmed then some now else none, fun r => ?_⟩, fun i => ?_⟩
  · rw [← mem_markInterface hm]
    split
    case isTrue  => exact iff_of_eq (congrArg (r ∈ ·) publish_interfaces)
    case isFalse => exact .rfl
  · split
    case isTrue hc  =>
      rw [and_iff_right hc]
      have marked := (@mem_markInterface _ _ decided (some now) _ hm).mpr (.inr rfl)
      have published := mem_publish (i := i) marked
      exact published
    case isFalse hc =>
      rw [or_iff_left fun h => hc h.1]
      simp [recordChange, revokeCandidateInterface, markInterface, Table.mem_delete]

end Decide

section Decided

variable {decided : CandidateStatus}

theorem Sound.decides (h : db.Sound) (d : Decides db row decided db') : db'.Sound := by
  have ⟨confirmedAt, hi⟩ := d.interfaces
  constructor
  · intro i hm
    cases (d.published i).mp hm with
    | inr hc => exact ⟨_, (hi _).mpr (.inr rfl), hc.1, hc.2⟩
    | inl hm =>
      have ⟨r, hr, hs, he⟩ := h.published i hm.1
      have hne : r.id ≠ row.id := fun hid => hm.2 (he ▸ congrArg interfaceId hid)
      exact ⟨r, (hi r).mpr (.inl ⟨hr, hne⟩), hs, he⟩
  · intro r hr hs
    refine (d.published _).mpr ?_
    cases (hi r).mp hr with
    | inl hr => exact .inl ⟨h.confirmed r hr.1 hs, fun he => hr.2 (interfaceId_inj.mp he)⟩
    | inr he =>
      subst he
      exact .inr ⟨hs, rfl⟩

theorem Unconfirmed.decides (h : db.Unconfirmed id) (d : Decides db row decided db')
    (hd : row.id = id → decided ≠ .confirmed) : db'.Unconfirmed id := by
  have ⟨confirmedAt, hi⟩ := d.interfaces
  intro r hr he
  cases (hi r).mp hr with
  | inl hr => exact h r hr.1 he
  | inr hr =>
    subst hr
    exact hd he

end Decided

section Calls

theorem setModule_frame {candidateId status actor now : String}
    (h : setModuleCandidateStatus candidateId status actor now db = .ok db') :
    db'.interfaces = db.interfaces ∧ db'.published = db.published := by
  unfold setModuleCandidateStatus at h
  split at h
  case h_1 => cases h
  case h_2 =>
    split at h
    case h_1 => cases h
    case h_2 => cases h; exact ⟨rfl, rfl⟩

end Calls

end SemanticMap

namespace SemanticCall

-- A refresh generates no two candidates with one id.
def Distinct : SemanticCall → Prop
  | refresh generated _ => (generated.interfaces.map (·.id)).Nodup
  | _                   => True

def confirms (candidateId : String) : SemanticCall → Bool
  | setInterface _ id status _ _ => id = candidateId ∧ status = "confirmed"
  | _                            => false

end SemanticCall

namespace SemanticMap

section Calls

variable {next : SemanticCall} {calls : List SemanticCall}

theorem Sound.call (h : db.Sound) (distinct : next.Distinct) : (db.call next).Sound := by
  cases next with
  | refresh generated reason =>
    simp only [SemanticMap.call]
    cases hr : refreshSemanticMapCandidates generated reason db with
    | error  => exact h
    | ok db' => exact h.refresh distinct hr
  | setModule id status actor now =>
    simp only [SemanticMap.call]
    cases hr : setModuleCandidateStatus id status actor now db with
    | error  => exact h
    | ok db' => exact h.congr (setModule_frame hr).1 (setModule_frame hr).2
  | setInterface hash id status actor now =>
    simp only [SemanticMap.call]
    cases hr : setModuleInterfaceCandidateStatus hash id status actor now db with
    | error  => exact h
    | ok db' =>
      have ⟨_, _, _, _, decides⟩ := setInterface_decides hr
      exact h.decides decides

theorem Unconfirmed.call (h : db.Unconfirmed id) (hc : next.confirms id = false) :
    (db.call next).Unconfirmed id := by
  cases next with
  | refresh generated reason =>
    simp only [SemanticMap.call]
    cases hr : refreshSemanticMapCandidates generated reason db with
    | error  => exact h
    | ok db' =>
      intro row hm he hs
      have ⟨p, hp, hps, hk⟩ := refresh_confirmed hr hm hs
      exact h p hp ((InterfaceSketch.statusKey_id hk).trans he) hps
  | setModule id status actor now =>
    simp only [SemanticMap.call]
    cases hr : setModuleCandidateStatus id status actor now db with
    | error  => exact h
    | ok db' => exact fun row hm => h row ((setModule_frame hr).1 ▸ hm)
  | setInterface hash id' status actor now =>
    simp only [SemanticMap.call]
    cases hr : setModuleInterfaceCandidateStatus hash id' status actor now db with
    | error  => exact h
    | ok db' =>
      have ⟨row, decided, hd, hid, decides⟩ := setInterface_decides hr
      refine h.decides decides fun he hs => ?_
      subst hs
      have hstatus : status = "confirmed" := by
        unfold CandidateStatus.ofString? at hd
        split at hd
        · rfl
        · cases hd
        · cases hd
      simp [SemanticCall.confirms, ← hid, he, hstatus] at hc

theorem Sound.after (distinct : ∀ call ∈ calls, call.Distinct) : (after calls).Sound := by
  induction calls using List.reverseRecOn with
  | nil => exact ⟨fun _ h => absurd h Table.not_mem_empty, fun _ h => absurd h Table.not_mem_empty⟩
  | append_singleton calls call hi =>
    rw [SemanticMap.after, List.foldl_append]
    exact (hi fun call h => distinct call (List.mem_append_left _ h)).call
      (distinct call (List.mem_append_right _ (List.mem_singleton_self _)))

theorem Unconfirmed.foldl (h : db.Unconfirmed id) (hc : ∀ call ∈ calls, call.confirms id = false) :
    (calls.foldl SemanticMap.call db).Unconfirmed id := by
  induction calls generalizing db with
  | nil           => exact h
  | cons hd tl hi =>
    exact hi (h.call (hc hd List.mem_cons_self)) fun call hm => hc call (List.mem_cons_of_mem _ hm)

-- A row with an interface for each confirmed candidate, with its data, and no other
def Published (db : SemanticMap) : Prop :=
  (∀ c, (∃ i ∈ db.published, i.id = interfaceId c) ↔
    ∃ row ∈ db.interfaces, row.id = c ∧ row.status = .confirmed) ∧
  ∀ i ∈ db.published, ∀ row ∈ db.interfaces, i.id = interfaceId row.id →
    i.fromModule = row.fromModule ∧ i.toModule = row.toModule ∧ i.symbol = row.symbol ∧
      i.signature = row.signature ∧ i.mock.mockHash = row.mockHash

theorem Sound.published_iff (h : db.Sound) : db.Published := by
  refine ⟨fun c => ⟨fun hi => ?_, fun hr => ?_⟩, fun i hi row hr he => ?_⟩
  · have ⟨i, hi, he⟩ := hi
    have ⟨row, hr, hs, hrow⟩ := h.published i hi
    subst hrow
    exact ⟨row, hr, interfaceId_inj.mp he, hs⟩
  · have ⟨row, hr, he, hs⟩ := hr
    exact ⟨row.interface, h.confirmed row hr hs, congrArg interfaceId he⟩
  · have ⟨r, hm, _, hrow⟩ := h.published i hi
    cases hrow
    cases eq_of_id hm hr (interfaceId_inj.mp he)
    exact ⟨rfl, rfl, rfl, rfl, rfl⟩

end Calls

namespace Sample

def boundary (mockHash : String) : InterfaceSketch where
  id              := "ifacecand-1"
  fromModule      := "core"
  toModule        := "app"
  fromCandidateId := "modcand-1"
  toCandidateId   := "modcand-2"
  symbol          := "core_boundary"
  signature       := [("kind", .str "module_import_boundary"), ("provider_module", .str "core")]
  mockFilePath    := ".bridle/semantic-map/mocks/app__to__core__core_boundary.json"
  mockHash        := mockHash
  confidence      := 33 / 50

def refresh (sketches : List InterfaceSketch) : SemanticCall :=
  .refresh ⟨"semmap-1", [], sketches, []⟩ "manual_refresh"

def confirm : SemanticCall :=
  .setInterface (fun _ => "old") "ifacecand-1" "confirmed" "human" "2026-01-01 00:00:00"

-- The user has confirmed the interface, and a refresh generates it with another mock.
def calls : List SemanticCall :=
  [refresh [boundary "old"], confirm, refresh [boundary "new"]]

theorem distinct : ∀ call ∈ calls, call.Distinct := by
  intro call hc
  simp only [calls, List.mem_cons, List.not_mem_nil, or_false] at hc
  cases hc with
  | inl hc => subst hc; simp [refresh, SemanticCall.Distinct]
  | inr hc =>
    cases hc with
    | inl hc => subst hc; trivial
    | inr hc => subst hc; simp [refresh, SemanticCall.Distinct]

end Sample

end SemanticMap
end ProjectMap
