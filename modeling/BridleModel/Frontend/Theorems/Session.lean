import Mathlib.Logic.Relation
import BridleModel.Frontend.Theorems.MapSync

open CodeMap Plan ProjectMap

namespace MapSync

variable {E A : Type} [CodeEntity E] {jsString : Json → String} {localeCompare : String → String → Int}
variable {entities : List E} {cache : MapLayerCache E A} {left : ApplyChangesResult E A} {q : String}

section Interference

variable (fileId : String → String) (projectId : String) (watched : String → Prop)

-- A transaction that tells of all it changes at the watched paths
def Loud (feed feed' : Feed E) : Prop :=
  ∃ t, feed.commit fileId projectId t = some feed' ∧ ∀ q, watched q → ¬t.Silent feed q

-- What happens to the store while the client waits. The signal may be given at any time.
def Others (w w' : World E) : Prop :=
  Relation.ReflTransGen (Loud fileId projectId watched) w.feed w'.feed

variable {fileId projectId watched} {w w' w'' : World E}

theorem Others.refl : Others fileId projectId watched w w :=
  Relation.ReflTransGen.refl

theorem Others.trans (h : Others fileId projectId watched w w') (h' : Others fileId projectId watched w' w'') :
    Others fileId projectId watched w w'' :=
  Relation.ReflTransGen.trans h h'

theorem loud_told {feed feed' : Feed E} (h : Relation.ReflTransGen (Loud fileId projectId watched) feed feed') :
    ChangeFeed.Told Tells watched feed.changes feed'.changes feed.rowsAt feed'.rowsAt := by
  induction h with
  | refl         => exact .refl
  | tail _ hl hi =>
    have ⟨t, ht, hs⟩ := hl
    exact hi.trans (commit_told ht hs)

theorem loud_legible {feed feed' : Feed E} (h : Relation.ReflTransGen (Loud fileId projectId watched) feed feed')
    (hn : Legible feed.changes) : Legible feed'.changes := by
  induction h with
  | refl         => exact hn
  | tail _ hl hi =>
    have ⟨_, ht, _⟩ := hl
    exact commit_legible ht hi

theorem Others.told (h : Others fileId projectId watched w w') :
    ChangeFeed.Told Tells watched w.feed.changes w'.feed.changes w.feed.rowsAt w'.feed.rowsAt :=
  loud_told h

end Interference

section Programs

variable {fileId : String → String} {projectId : String} {watched : String → Prop} {w w' : World E} {β : Type}

-- What is promised of a result; an exception promises nothing.
def OnOk (P : β → World E → Prop) (r : Except SyncError β) (w : World E) : Prop :=
  ∀ b, r = .ok b → P b w

-- The client changes nothing, so the others may rely on it for everything.
abbrev SafeFor (fileId : String → String) (projectId : String) (watched : String → Prop) (k : Co E β)
    (P : β → World E → Prop) (w : World E) : Prop :=
  k.Safe (fun w => Legible w.feed.changes) (fun _ => Others fileId projectId watched) 0 (OnOk P) w

theorem safe_pure {P : β → World E → Prop} {b : β} (hn : Legible w.feed.changes) (h : P b w) :
    SafeFor fileId projectId watched (pure b) P w :=
  .pure hn fun _ he => Except.ok.inj he ▸ h

theorem safe_bind {γ : Type} {k : Co E β} {f : β → Co E γ} {P : β → World E → Prop} {Q : γ → World E → Prop}
    (h : SafeFor fileId projectId watched k P w)
    (hf : ∀ b w', Legible w'.feed.changes → P b w' → SafeFor fileId projectId watched (f b) Q w') :
    SafeFor fileId projectId watched (k >>= f) Q w :=
  Coroutine.Safe.bind h (fun b w' hn hb => hf b w' hn (hb b rfl)) fun _ _ _ _ _ he => nomatch he

theorem safe_throwIfAborted (hn : Legible w.feed.changes) :
    SafeFor fileId projectId watched throwIfAborted (fun _ w' => w' = w) w := by
  refine .read_bind (fun _ _ => .refl) hn ?_
  cases w.aborted with
  | false => exact safe_pure hn rfl
  | true  => exact .raise hn fun _ he => nomatch he

theorem safe_request {answer : Feed E → Except SyncError β} {P : β → World E → Prop}
    (h : ∀ w', Others fileId projectId watched w w' → Legible w'.feed.changes → ∀ b, answer w'.feed = .ok b → P b w') :
    SafeFor fileId projectId watched (request answer) P w := by
  refine .wait fun w' hr hn fault w'' r ha => ?_
  cases Option.some.inj ha
  refine ⟨fun _ _ => .refl, hn, fun b he => ?_⟩
  cases fault with
  | none   => exact h w' hr hn b he
  | some e => cases he

end Programs

section Between

-- The events after one position, up to another
def between (changes : List ChangeRow) (m n : Nat) : List ChangeRow :=
  (changes.take n).drop m

variable {log log' : List ChangeRow} {k m n : Nat}

theorem between_extend (h : log <+: log') (hn : n ≤ log.length) : between log m n = between log' m n := by
  have ⟨tl, he⟩ := h
  rw [between, between, ← he, List.take_append_of_le_length hn]

theorem between_append (hm : m ≤ n) (hn : n ≤ log.length) :
    between log m n ++ (log.drop n).take k = between log m (n + k) := by
  rw [between, between, List.take_add, List.drop_append_of_le_length]
  rwa [List.length_take_of_le hn]

end Between

section Sync

variable {fileId : String → String} {projectId : String} {watched : String → Prop} {w w' : World E}
variable {fromSeq targetSeq pageSize n : Nat} {paths : List String}

-- One path after the other is fetched again.
theorem safe_fetchSlices (hn : Legible w.feed.changes) (hp : ∀ rel ∈ paths, normalizeRelativePath rel = .ok rel)
    (hd : (entities.map CodeEntity.id).Nodup) (hl : n ≤ w.feed.changes.length)
    (hr : ChangeFeed.Refetches Tells watched (fun q => ∃ rel ∈ paths, OfFile rel q) w.feed.changes n w.feed.rowsAt
      (rowsAt entities)) :
    SafeFor fileId projectId watched (fetchSlices localeCompare paths entities) (fun entities' w' =>
      Others fileId projectId watched w w' ∧ (entities'.map CodeEntity.id).Nodup ∧
        ChangeFeed.Follows Tells watched w'.feed.changes n w'.feed.rowsAt (rowsAt entities')) w := by
  induction paths generalizing w entities with
  | nil            => exact safe_pure hn ⟨.refl, hd, hr.follows fun q => by simp⟩
  | cons rel tl hi =>
    have ⟨hrel, htl⟩ := List.forall_mem_cons.mp hp
    refine safe_bind (safe_throwIfAborted hn) fun _ w₁ hn₁ he => ?_
    subst he
    refine safe_bind (P := fun slice w' => Others fileId projectId watched w₁ w' ∧ w'.feed.pathSlice rel = .ok slice)
      (safe_request fun w' ho _ slice hs => ⟨ho, ?_⟩) fun slice w₂ hn₂ hslice => ?_
    · cases hs' : w'.feed.pathSlice rel with
      | ok s    =>
        rw [hs'] at hs
        exact congrArg _ (Except.ok.inj hs)
      | error e =>
        rw [hs'] at hs
        cases hs
    have ⟨ho, hok⟩ := hslice
    refine safe_bind (safe_throwIfAborted hn₂) fun _ w₃ hn₃ he => ?_
    subst he
    have ⟨_, hok', hds, hmem⟩ := @pathSlice_ok E _ rel w₃.feed hrel
    cases hok.symm.trans hok'
    have hl₃ := hl.trans ho.told.grows.length_le
    have hpart : ∀ q, rowsAt slice q ≤ w₃.feed.rowsAt q := fun q x hx => ⟨((hmem x).mp hx.left).left, hx.right⟩
    have hfull : ∀ q, OfFile rel q → rowsAt slice q = w₃.feed.rowsAt q := by
      intro q hf
      refine (hpart q).antisymm fun x hx => ?_
      obtain ⟨hx, rfl⟩ := hx
      exact ⟨(hmem x).mpr ⟨hx, hf.inFile⟩, rfl⟩
    have hcopy : ∀ q, rowsAt entities q ≤ w₃.feed.rowsAt q →
        rowsAt (mergeEntitiesById localeCompare entities slice) q = rowsAt entities q ⊔ rowsAt slice q :=
      fun q hle => rowsAt_merged hd hds (fun x hx => ((hmem x).mp hx).left) hle
    have hr₃ := (hr.told hl ho.told).join hpart hfull hcopy
    have hr₃ : ChangeFeed.Refetches Tells watched (fun q => ∃ rel ∈ tl, OfFile rel q) w₃.feed.changes n w₃.feed.rowsAt
        (rowsAt (mergeEntitiesById localeCompare entities slice)) := by
      intro q hq
      refine (hr₃ q hq).imp_right fun hc => ⟨hc.left, fun hn => hc.right fun hd => ?_⟩
      have ⟨⟨r, hm, hf⟩, hh⟩ := hd
      cases List.mem_cons.mp hm with
      | inl he => exact hh (he ▸ hf)
      | inr hm => exact hn ⟨r, hm, hf⟩
    refine Coroutine.Safe.weaken (hi hn₃ htl (nodup_mergeEntitiesById hd hds) hl₃ hr₃) fun r w' _ hq entities' he => ?_
    have ⟨ho', h⟩ := hq entities' he
    exact ⟨ho.trans ho', h⟩

variable (jsString fileId projectId watched) in
-- Where the client stands between two pages
structure Reading (w : World E) (fromSeq n : Nat) (cache : MapLayerCache E A) (aggregate : ApplyChangesResult E A) :
    Prop where
  le         : fromSeq ≤ n
  bound      : n ≤ w.feed.changes.length
  distinct   : (cache.entities.map CodeEntity.id).Nodup
  aggregates : Aggregates jsString (between w.feed.changes fromSeq n) aggregate
  followed   : aggregate.incremental
  refetches  : ChangeFeed.Refetches Tells watched (fun q => ∃ rel ∈ aggregate.refreshPaths, OfFile rel q)
    w.feed.changes n w.feed.rowsAt (rowsAt cache.entities)

theorem Reading.others (h : Reading jsString watched w fromSeq n cache left)
    (ho : Others fileId projectId watched w w') : Reading jsString watched w' fromSeq n cache left where
  le         := h.le
  bound      := h.bound.trans ho.told.grows.length_le
  distinct   := h.distinct
  aggregates := between_extend ho.told.grows h.bound ▸ h.aggregates
  followed   := h.followed
  refetches  := h.refetches.told h.bound ho.told

theorem Reading.normalized (h : Reading jsString watched w fromSeq n cache left) (hn : Legible w.feed.changes) :
    ∀ rel ∈ left.refreshPaths, normalizeRelativePath rel = .ok rel := by
  intro rel hr
  have ⟨event, he, hp⟩ := List.mem_filterMap.mp ((h.aggregates.refreshPaths rel).mp hr)
  exact (refreshPath?_of_legible hn (List.mem_of_mem_take (List.mem_of_mem_drop he)) hp).right

theorem Reading.flags {m : Nat} (h : Reading jsString watched w fromSeq n cache left) :
    Aggregates jsString (between w.feed.changes fromSeq (n + m))
      (mergeApplyFlags left (summary jsString cache ((w.feed.changes.drop n).take m))) := by
  rw [← between_append h.le h.bound]
  exact h.aggregates.page

-- The client has applied a page whose events it can all follow.
theorem Reading.page {m : Nat} (h : Reading jsString watched w fromSeq n cache left) (hn : Legible w.feed.changes)
    (hm : n + m ≤ w.feed.changes.length) (hs : ((w.feed.changes.drop n).take m).all (supported jsString)) :
    Reading jsString watched w fromSeq (n + m) (summary jsString cache ((w.feed.changes.drop n).take m)).cache
      (mergeApplyFlags left (summary jsString cache ((w.feed.changes.drop n).take m))) := by
  have hpage : Legible ((w.feed.changes.drop n).take m) :=
    fun event he => hn event (List.mem_of_mem_drop (List.mem_of_mem_take he))
  obtain ⟨hdrop, hkeep⟩ := rowsAt_applied cache hpage hs
  constructor
  case le         => exact h.le.trans (Nat.le_add_right n m)
  case bound      => exact hm
  case distinct   => exact h.distinct.sublist (foldl_removeEntitiesForPath_sublist.map _)
  case aggregates => exact h.flags
  case followed   => simp [mergeApplyFlags, h.followed, summary, hs]
  case refetches  =>
    intro q hq
    refine ((h.refetches.page hdrop hkeep) q hq).imp_right fun hc => ⟨hc.left, fun hd => hc.right fun hor => hd ?_⟩
    cases hor with
    | inl hor =>
      obtain ⟨rel, hr, hf⟩ := hor
      exact ⟨rel, by simp [mergeApplyFlags, hr], hf⟩
    | inr hor =>
      obtain ⟨event, he, ht⟩ := hor
      obtain ⟨rel, hr, hf⟩ := (tells_iff hpage he (List.all_eq_true.mp hs event he)).mp ht
      refine ⟨rel, ?_, hf⟩
      simp only [mergeApplyFlags, List.mem_eraseDups, List.mem_append]
      exact .inr (List.mem_filterMap.mpr ⟨event, he, hr⟩)

variable (jsString watched) in
-- What a sync comes to: every event up to `last` has been applied once, and nothing that they tell of is lost.
structure Outcome (w : World E) (fromSeq targetSeq last : Nat) (result : SyncMapWatermarkResult E A) : Prop where
  le                    : fromSeq ≤ last
  bound                 : last ≤ w.feed.changes.length
  incremental           : result.incremental = (between w.feed.changes fromSeq last).all (supported jsString)
  invalidateAnnotations : result.invalidateAnnotations = (between w.feed.changes fromSeq last).any (annotates jsString)
  invalidateRelations   : result.invalidateRelations =
    (between w.feed.changes fromSeq last).any (refreshPath? jsString · |>.isSome)
  invalidateBlindSpots  : result.invalidateBlindSpots =
    (between w.feed.changes fromSeq last).any (refreshPath? jsString · |>.isSome)
  invalidateBoundaries  : result.invalidateBoundaries =
    (between w.feed.changes fromSeq last).any (refreshPath? jsString · |>.isSome)
  success               : result.incremental → targetSeq ≤ last ∧ result.watermark = targetSeq ∧
    (result.cache.entities.map CodeEntity.id).Nodup ∧
      ChangeFeed.Follows Tells watched w.feed.changes targetSeq w.feed.rowsAt (rowsAt result.cache.entities)
  fallback              : result.incremental = false →
    result.watermark = last ∧ result.fallbackReason = some "unsupported_change_event"

-- An event on the page that the client cannot follow ends the sync.
theorem Reading.unsupported {m : Nat} (h : Reading jsString watched w fromSeq n cache left)
    (hm : n + m ≤ w.feed.changes.length)
    (hs : ¬(summary jsString cache ((w.feed.changes.drop n).take m)).incremental) :
    Outcome jsString watched w fromSeq targetSeq (n + m)
      (.of (summary jsString cache ((w.feed.changes.drop n).take m)).cache (n + m)
        (mergeApplyFlags left (summary jsString cache ((w.feed.changes.drop n).take m)))
        (some "unsupported_change_event")) := by
  have ha : Aggregates jsString (between w.feed.changes fromSeq (n + m)) _ := h.flags
  constructor
  case le                    => exact h.le.trans (Nat.le_add_right n m)
  case bound                 => exact hm
  case incremental           =>
    rw [← ha.incremental]
    simp [mergeApplyFlags, hs, SyncMapWatermarkResult.of]
  case invalidateAnnotations => exact ha.invalidateAnnotations
  case invalidateRelations   => exact ha.invalidateRelations
  case invalidateBlindSpots  => exact ha.invalidateBlindSpots
  case invalidateBoundaries  => exact ha.invalidateBoundaries
  case success               =>
    intro hc
    cases hc
  case fallback              => exact fun _ => ⟨rfl, rfl⟩

theorem safe_refetch (h : Reading jsString watched w fromSeq n cache left) (hn : Legible w.feed.changes)
    (ht : targetSeq ≤ n) : SafeFor fileId projectId watched (refetch localeCompare targetSeq n cache left)
      (fun result w' => ∃ last, Outcome jsString watched w' fromSeq targetSeq last result) w := by
  have hfetch : SafeFor fileId projectId watched
      (if left.needsEntityPage then fetchSlices localeCompare left.refreshPaths cache.entities else pure cache.entities)
      (fun entities w' => Others fileId projectId watched w w' ∧ (entities.map CodeEntity.id).Nodup ∧
        ChangeFeed.Follows Tells watched w'.feed.changes n w'.feed.rowsAt (rowsAt entities)) w := by
    split
    case isTrue     => exact safe_fetchSlices hn (h.normalized hn) h.distinct h.bound h.refetches
    case isFalse hp =>
      refine safe_pure hn ⟨.refl, h.distinct, h.refetches.follows fun q hq => hp ?_⟩
      have ⟨rel, hr, _⟩ := hq
      have ⟨event, he, hs⟩ := List.mem_filterMap.mp ((h.aggregates.refreshPaths rel).mp hr)
      rw [h.aggregates.needsEntityPage]
      exact List.any_eq_true.mpr ⟨event, he, hs ▸ rfl⟩
  refine safe_bind hfetch fun entities w' hn' hpost => safe_pure hn' ⟨n, ?_⟩
  have ⟨ho, hd, hf⟩ := hpost
  have h' := h.others ho
  have ha := h'.aggregates
  constructor
  case le                    => exact h'.le
  case bound                 => exact h'.bound
  case incremental           => exact (ha.incremental.symm.trans h'.followed).symm
  case invalidateAnnotations => exact ha.invalidateAnnotations
  case invalidateRelations   => exact ha.invalidateRelations
  case invalidateBlindSpots  => exact ha.invalidateBlindSpots
  case invalidateBoundaries  => exact ha.invalidateBoundaries
  case success               => exact fun _ => ⟨ht, Nat.min_eq_right ht, hd, hf.mono ht⟩
  case fallback              => exact fun hc => nomatch hc

theorem safe_syncPages (h : Reading jsString watched w fromSeq n cache left) (hn : Legible w.feed.changes)
    (ht : targetSeq ≤ w.feed.changes.length) (hp : 1 ≤ pageSize ∧ pageSize ≤ 200) :
    SafeFor fileId projectId watched (syncPages jsString localeCompare targetSeq pageSize n cache left)
      (fun result w' => ∃ last, Outcome jsString watched w' fromSeq targetSeq last result) w := by
  have hlimit : boundedLimit pageSize = pageSize := by
    unfold boundedLimit maxPageLimit
    omega
  induction hk : targetSeq - n using Nat.strong_induction_on generalizing w n cache left with
  | _ k hi =>
    rw [syncPages]
    split
    case isFalse hle => exact safe_refetch h hn (Nat.le_of_not_lt hle)
    case isTrue hlt  =>
      refine safe_bind (safe_throwIfAborted hn) fun _ w₁ hn₁ he => ?_
      subst he
      refine safe_bind (P := fun changes w' => Others fileId projectId watched w₁ w' ∧
        w'.feed.changesAfter n pageSize = changes)
        (safe_request fun w' ho _ changes hs => ⟨ho, Except.ok.inj hs⟩) fun changes w₂ hn₂ hchanges => ?_
      have ⟨ho, hc⟩ := hchanges
      subst hc
      refine safe_bind (safe_throwIfAborted hn₂) fun _ w₃ hn₃ he => ?_
      subst he
      have h₃ := h.others ho
      have ht₃ := ht.trans ho.told.grows.length_le
      have hlen : (w₃.feed.itemsAfter n pageSize).length = min pageSize (w₃.feed.changes.length - n) :=
        length_itemsAfter.trans (by rw [hlimit])
      have hevents : (w₃.feed.itemsAfter n pageSize).map (·.event) =
          (w₃.feed.changes.drop n).take (w₃.feed.itemsAfter n pageSize).length := by
        rw [itemsAfter_events, hlimit, hlen, ← List.length_drop, ← List.take_eq_take_min]
      have hlast : (w₃.feed.changesAfter n pageSize).lastSeq = n + (w₃.feed.itemsAfter n pageSize).length :=
        lastSeq_changesAfter
      have hitems : (w₃.feed.changesAfter n pageSize).items = w₃.feed.itemsAfter n pageSize := rfl
      have hbound : n + (w₃.feed.itemsAfter n pageSize).length ≤ w₃.feed.changes.length := by omega
      split
      case isTrue hnil =>
        rw [hitems] at hnil
        rw [hnil, List.length_nil] at hlen
        omega
      case isFalse hne =>
        simp only [applyChangeEvents_eq, hitems, hevents, hlast]
        split
        case isTrue hbad   => exact safe_pure hn₃ ⟨_, h₃.unsupported hbound hbad⟩
        case isFalse hgood =>
          rw [not_not] at hgood
          have hnext := h₃.page hn₃ hbound hgood
          split
          case isTrue hend => exact safe_refetch hnext hn₃ hend.right
          case isFalse _   =>
            split
            case isTrue hgap => omega
            case isFalse _   =>
              refine hi _ ?_ hnext hn₃ ht₃ rfl
              omega

end Sync

section Session

variable {fileId : String → String} {projectId : String} {watched : String → Prop} {targetSeq pageSize : Nat}
variable {w w' : World E} {client client' : Client E A} {r : Except SyncError (SyncMapWatermarkResult E A)}

variable (watched) in
-- The client has read the log up to its position.
structure UpToDate (w : World E) (client : Client E A) : Prop where
  legible  : Legible w.feed.changes
  bound    : client.lastSeq ≤ w.feed.changes.length
  distinct : (client.cache.entities.map CodeEntity.id).Nodup
  follows  : ChangeFeed.Follows Tells watched w.feed.changes client.lastSeq w.feed.rowsAt (rowsAt client.cache.entities)

theorem UpToDate.others (h : UpToDate watched w client) (ho : Others fileId projectId watched w w') :
    UpToDate watched w' client where
  legible  := loud_legible ho h.legible
  bound    := h.bound.trans ho.told.grows.length_le
  distinct := h.distinct
  follows  := h.follows.told h.bound ho.told

theorem UpToDate.reading (h : UpToDate watched w client) :
    Reading jsString watched w client.lastSeq client.lastSeq client.cache (unchanged client.cache) := by
  constructor
  case le         => exact Nat.le_refl _
  case bound      => exact h.bound
  case distinct   => exact h.distinct
  case followed   => rfl
  case aggregates =>
    rw [between, List.drop_eq_nil_of_le (List.length_take_le ..)]
    exact aggregates_unchanged
  case refetches  =>
    intro q hq
    refine (ChangeFeed.Refetches.of_follows h.follows q hq).imp_right fun hc => ⟨hc.left, fun _ => hc.right ?_⟩
    exact not_false

-- For the store a run is nothing but what the others do.
theorem UpToDate.runs (h : UpToDate watched w client) (ht : targetSeq ≤ w.feed.changes.length)
    (hp : 1 ≤ pageSize ∧ pageSize ≤ 200)
    (hr : (syncMapWatermark jsString localeCompare client.lastSeq targetSeq client.cache pageSize).Runs
      (Others fileId projectId watched) w r w') :
    Others fileId projectId watched w w' ∧ ∀ result, r = .ok result →
      ∃ last, Outcome jsString watched w' client.lastSeq targetSeq last result := by
  have hs : SafeFor fileId projectId watched
      (syncMapWatermark jsString localeCompare client.lastSeq targetSeq client.cache pageSize)
      (fun result w' => ∃ last, Outcome jsString watched w' client.lastSeq targetSeq last result) w :=
    safe_syncPages h.reading h.legible ht hp
  have hkept : ∀ {w w' : World E}, Legible w.feed.changes → Others fileId projectId watched w w' →
      Legible w'.feed.changes := fun hn ho => loud_legible ho hn
  constructor
  case left  => exact hs.runs_guarantee hkept h.legible Nat.one_ne_zero (fun _ => .refl) Others.trans id hr
  case right => exact (hs.runs hkept h.legible hr).right

-- The client polls the store, and syncs when the store has gone on. The page size is that of the hook. After an attempt
-- that fell back the layers are fetched anew.
inductive Session (jsString : Json → String) (localeCompare : String → String → Int) (fileId : String → String)
    (projectId : String) (watched : String → Prop) (w : World E) (client : Client E A) : World E → Client E A → Prop
  | start : Session jsString localeCompare fileId projectId watched w client w client
  | others {w₁ w₂ : World E} {reader : Client E A}
    (h : Session jsString localeCompare fileId projectId watched w client w₁ reader)
    (ho : Others fileId projectId watched w₁ w₂) :
    Session jsString localeCompare fileId projectId watched w client w₂ reader
  | refetched {w₁ : World E} {reader : Client E A} {cache : MapLayerCache E A}
    (h : Session jsString localeCompare fileId projectId watched w client w₁ reader)
    (hd : (cache.entities.map CodeEntity.id).Nodup) (hf : ∀ q, watched q → rowsAt cache.entities q = w₁.feed.rowsAt q) :
    Session jsString localeCompare fileId projectId watched w client w₁ { reader with cache }
  | sync {w₁ w₂ : World E} {reader : Client E A} {targetSeq : Nat} {r : Except SyncError (SyncMapWatermarkResult E A)}
    (h : Session jsString localeCompare fileId projectId watched w client w₁ reader)
    (hlt : reader.lastSeq < targetSeq) (ht : targetSeq ≤ w₁.feed.changes.length)
    (hr : (syncMapWatermark jsString localeCompare reader.lastSeq targetSeq reader.cache 100).Runs
      (Others fileId projectId watched) w₁ r w₂) :
    Session jsString localeCompare fileId projectId watched w client w₂ (reader.attempted r)

theorem UpToDate.sync (h : UpToDate watched w client) (ht : targetSeq ≤ w.feed.changes.length)
    (hr : (syncMapWatermark jsString localeCompare client.lastSeq targetSeq client.cache 100).Runs
      (Others fileId projectId watched) w r w') : UpToDate watched w' (client.attempted r) := by
  obtain ⟨hothers, hout⟩ := h.runs ht (by decide) hr
  have hkept := h.others hothers
  cases r with
  | error e   => exact hkept
  | ok result =>
    rw [Client.attempted]
    split
    case isFalse   => exact hkept
    case isTrue hi =>
      obtain ⟨last, ho⟩ := hout result rfl
      obtain ⟨hle, hmark, hd, hf⟩ := ho.success hi
      exact ⟨hkept.legible, hmark ▸ hle.trans ho.bound, hd, hmark ▸ hf⟩

theorem Session.upToDate (h : Session jsString localeCompare fileId projectId watched w client w' client')
    (hs : UpToDate watched w client) : UpToDate watched w' client' := by
  induction h with
  | start                => exact hs
  | others _ ho hi       => exact hi.others ho
  | refetched _ hd hf hi => exact ⟨hi.legible, hi.bound, hd, fun q hq => .inl (hf q hq)⟩
  | sync _ _ ht hr hi    => exact hi.sync ht hr

end Session

section Sample

variable {fileId : String → String} {projectId : String} {watched : String → Prop}

def refreshSample : Transaction ProjectMap.EntityRow :=
  .refresh ["a"] [⟨"f", "a"⟩] []

def refreshedSample : World ProjectMap.EntityRow where
  feed    := { entities := ⟨[⟨"f", "a"⟩], List.pairwise_singleton ..⟩, changes := [refreshEvent id "a"] }
  aborted := false

theorem loud_sample : Loud id "p" (· = "a") .empty refreshedSample.feed := by
  refine ⟨refreshSample, rfl, fun q hq hs => ?_⟩
  have ⟨normalized, hn, hf, _⟩ := hs
  cases hn.symm.trans (show normalizePaths ["a"] = .ok ["a"] from rfl)
  exact hf "a" List.mem_cons_self (.inl hq)

def clientSample : Client ProjectMap.EntityRow Unit where
  cache   := { entities := [], annotations := [] }
  lastSeq := 0

theorem nodup_sample : (clientSample.cache.entities.map CodeEntity.id).Nodup :=
  List.nodup_nil

def resultSample : SyncMapWatermarkResult ProjectMap.EntityRow Unit where
  cache                 := { entities := [⟨"f", "a"⟩], annotations := [] }
  watermark             := 1
  incremental           := true
  invalidateAnnotations := true
  invalidateRelations   := true
  invalidateBlindSpots  := true
  invalidateBoundaries  := true
  fallbackReason        := none

theorem pathSlice_sample : (refreshedSample.feed.pathSlice "a").mapError (fun _ => SyncError.failed) =
    .ok [⟨"f", "a"⟩] :=
  rfl

-- The page of the one event, and the slice of its path
theorem runs_sample : (syncMapWatermark jsString localeCompare 0 1 clientSample.cache 100).Runs
    (Others fileId projectId watched) refreshedSample (.ok resultSample) refreshedSample := by
  have hp : pathOf jsString (refreshEvent id "a") = "a" := by simp [pathOf, refreshEvent, Json.Dict.get]
  have ha : some (refreshedSample, (none : Option SyncError).elim
      ((refreshedSample.feed.pathSlice (pathOf jsString (refreshEvent id "a"))).mapError fun _ => .failed) .error) =
        some (refreshedSample, .ok [⟨"f", "a"⟩]) := by
    rw [hp, pathSlice_sample]
    rfl
  rw [syncMapWatermark, syncPages, if_pos Nat.zero_lt_one]
  refine .sync (.await .refl (i := none) rfl (.sync ?_))
  refine .sync (.await .refl (i := none) ha (.sync ?_))
  exact .done

end Sample

section Results

variable {fileId : String → String} {projectId : String} {watched : String → Prop} {w w' : World E}
variable {fromSeq targetSeq pageSize : Nat} {client client' : Client E A}

end Results
end MapSync
