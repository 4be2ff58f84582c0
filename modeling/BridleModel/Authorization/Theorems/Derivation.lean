import Mathlib.Order.SetNotation
import BridleModel.Authorization.Theorems.Scope

open Except Python

namespace Authorization

-- A request for an action on a resource, with its attributes normalized.
structure Access where
  action       : String
  resourceType : String
  attributes   : Attributes

section Accesses

def ResourceScope.accesses (scope : ResourceScope) : Set Access :=
  { a | scopeMatchesRequest scope a.action a.resourceType a.attributes }

def AgentGrant.accesses (grant : AgentGrant) (effect : Effect) : Set Access :=
  { a | ∃ scope ∈ grant.resourceScopes, scope.effect = effect ∧ a ∈ scope.accesses }

def AgentGrant.authority (grant : AgentGrant) : Set Access :=
  { a | a.resourceType ∈ knownResourceTypes ∧ a ∈ grant.accesses .allow ∧ a ∉ grant.accesses .deny }

variable {scope left right parent child : ResourceScope} {access : Access} {key expected actual value : String}

theorem mem_accesses : access ∈ scope.accesses ↔
    scope.resourceType = access.resourceType ∧ access.action ∈ scope.actions ∧
      ∀ a ∈ scope.attributes, ∃ value, Assoc.get (Assoc.dict access.attributes) a.fst = some value ∧
        attributeContains a.fst a.snd value := by
  simp [ResourceScope.accesses, scopeMatchesRequest, Option.any_eq_true]

theorem attributeContains_trans (h : attributeContains key expected actual)
    (h' : attributeContains key actual value) : attributeContains key expected value := by
  unfold attributeContains at h h' ⊢
  split
  case isTrue hk =>
    rw [if_pos hk] at h h'
    exact pathContains_trans h h'
  case isFalse hk =>
    rw [if_neg hk, decide_eq_true_eq] at h h'
    exact decide_eq_true (h'.trans h)

-- A scope matches every request that a scope inside it matches.
theorem accesses_of_contains (hp : Normal parent) (hc : Normal child) (h : scopeContains parent child) :
    child.accesses ⊆ parent.accesses := by
  intro access ha
  obtain ⟨ht, hm, hv⟩ := mem_accesses.mp ha
  simp only [scopeContains, decide_eq_true_eq, Assoc.dict_of_distinct hp.attributes.distinct,
    Assoc.dict_of_distinct hc.attributes.distinct, List.all_eq_true, Option.any_eq_true] at h
  obtain ⟨ht', hs, hk⟩ := h
  refine mem_accesses.mpr ⟨ht'.trans ht, hs hm, fun a ha => ?_⟩
  obtain ⟨actual, hg, hc⟩ := hk a ha
  obtain ⟨value, hg, hc'⟩ := hv _ (Assoc.mem_of_get hg)
  exact ⟨value, hg, attributeContains_trans hc hc'⟩

-- Scopes that match one request overlap.
theorem overlap_of_accesses (hl : Normal left) (hr : Normal right) (h : access ∈ left.accesses)
    (h' : access ∈ right.accesses) : scopesOverlap left right := by
  obtain ⟨ht, hm, hv⟩ := mem_accesses.mp h
  obtain ⟨ht', hm', hv'⟩ := mem_accesses.mp h'
  simp only [scopesOverlap, decide_eq_true_eq, Assoc.dict_of_distinct hl.attributes.distinct,
    Assoc.dict_of_distinct hr.attributes.distinct, List.all_eq_true]
  refine ⟨ht.trans ht'.symm, Finset.ne_empty_of_mem (Finset.mem_inter.mpr ⟨hm, hm'⟩), fun a ha => ?_⟩
  rw [Option.all_eq_true]
  intro value hg
  obtain ⟨actual, hg', hc⟩ := hv a ha
  obtain ⟨actual', hg'', hc'⟩ := hv' _ (Assoc.mem_of_get hg)
  cases hg'.symm.trans hg''
  unfold attributeContains at hc hc'
  split
  case isTrue hk =>
    rw [if_pos hk] at hc hc'
    exact decide_eq_true (pathContains_total hc hc')
  case isFalse hk =>
    rw [if_neg hk, decide_eq_true_eq] at hc hc'
    exact decide_eq_true (hc.symm.trans hc')

end Accesses

section Build

variable {grant : AgentGrant} {request : Request} {policyVersion : String} {revocation : RevocationToken}

-- What `_build_grant` makes of its arguments.
structure Builds (request : Request) (revocation : RevocationToken) (grant : AgentGrant) : Prop where
  scopes     : s ∈ grant.resourceScopes ↔ ∃ r ∈ request.resourceScopes, normalizeScope r = .ok s
  tools      : t ∈ grant.toolGrants ↔ ∃ r ∈ request.toolGrants, normalizeTool r = .ok t
  skills     : k ∈ grant.skillGrants ↔ ∃ r ∈ request.skillGrants, normalizeSkill r = .ok k
  budget     : normalizeBudget request.budgetGrant = .ok grant.budgetGrant
  revocation : grant.revocation = revocation

theorem mem_normalizeResourceScopes {scopes scopes' : List ResourceScope} {s : ResourceScope}
    (h : normalizeResourceScopes scopes = .ok scopes') :
    s ∈ scopes' ↔ ∃ r ∈ scopes, normalizeScope r = .ok s := by
  have ⟨_, hm, he⟩ := map_eq_ok_iff.mp h
  rw [← he, sortedSet, List.mem_insertionSort, List.mem_dedup, mem_of_mapM hm]

theorem mem_normalizeToolGrants {grants grants' : List ToolGrant} {t : ToolGrant}
    (h : normalizeToolGrants grants = .ok grants') :
    t ∈ grants' ↔ ∃ r ∈ grants, normalizeTool r = .ok t := by
  have ⟨_, hm, he⟩ := map_eq_ok_iff.mp h
  rw [← he, sortedSet, List.mem_insertionSort, List.mem_dedup, mem_of_mapM hm]

theorem mem_normalizeSkillGrants {grants grants' : List SkillGrant} {k : SkillGrant}
    (h : normalizeSkillGrants grants = .ok grants') :
    k ∈ grants' ↔ ∃ r ∈ grants, normalizeSkill r = .ok k := by
  have ⟨_, hm, he⟩ := map_eq_ok_iff.mp h
  rw [← he, sortedSet, List.mem_insertionSort, List.mem_dedup, mem_of_mapM hm]

theorem buildGrant_ok (h : buildGrant policyVersion request revocation = .ok grant) :
    Builds request revocation grant := by
  have ⟨_, _, h⟩ := bind_eq_ok_iff.mp h
  have ⟨_, _, h⟩ := bind_eq_ok_iff.mp h
  have ⟨_, hs, h⟩ := bind_eq_ok_iff.mp h
  have ⟨_, ht, h⟩ := bind_eq_ok_iff.mp h
  have ⟨_, hk, h⟩ := bind_eq_ok_iff.mp h
  have ⟨_, hb, h⟩ := bind_eq_ok_iff.mp h
  cases h
  exact {
    scopes     := mem_normalizeResourceScopes hs
    tools      := mem_normalizeToolGrants ht
    skills     := mem_normalizeSkillGrants hk
    budget     := hb
    revocation := rfl
  }

theorem Builds.normal (h : Builds request revocation grant) : ∀ s ∈ grant.resourceScopes, Normal s := by
  intro s hs
  have ⟨_, _, hn⟩ := h.scopes.mp hs
  exact normalizeScope_ok hn

theorem normalizeTool_ok {t t' : ToolGrant} (h : normalizeTool t = .ok t') :
    t' = ⟨strip t.toolId, t.actions.image strip⟩ := by
  unfold normalizeTool at h
  split at h
  case isTrue  => cases h
  case isFalse =>
    split at h
    case isTrue  => cases h
    case isFalse => exact (ok.inj h).symm

theorem normalizeTool_normalized {t t' t'' : ToolGrant} (h : normalizeTool t = .ok t')
    (h' : normalizeTool t' = .ok t'') : t'' = t' := by
  rw [normalizeTool_ok h', normalizeTool_ok h]
  simp [strip_strip, Finset.image_image, Function.comp_def]

theorem normalizeSkill_ok {k k' : SkillGrant} (h : normalizeSkill k = .ok k') :
    k' = ⟨strip k.skillId, k.submodules.image strip⟩ := by
  unfold normalizeSkill at h
  split at h
  case isTrue  => cases h
  case isFalse =>
    split at h
    case isTrue  => cases h
    case isFalse => exact (ok.inj h).symm

theorem normalizeSkill_normalized {k k' k'' : SkillGrant} (h : normalizeSkill k = .ok k')
    (h' : normalizeSkill k' = .ok k'') : k'' = k' := by
  rw [normalizeSkill_ok h', normalizeSkill_ok h]
  simp [strip_strip, Finset.image_image, Function.comp_def]

theorem normalizeBudget_ok {b b' : BudgetGrant} (h : normalizeBudget b = .ok b') : b' = b := by
  unfold normalizeBudget at h
  split at h
  case isTrue  => cases h
  case isFalse =>
    split at h
    case isTrue  => cases h
    case isFalse =>
      split at h
      case isTrue  => cases h
      case isFalse => exact (ok.inj h).symm

end Build

section Derive

variable {parent child : AgentGrant} {events : Finset Nat} {id : Nat} {request : Request}

structure Within (parent child : AgentGrant) : Prop where
  allow  : s ∈ child.resourceScopes → s.effect = .allow →
    ∃ p ∈ parent.resourceScopes, p.effect = .allow ∧ scopeContains p s
  deny   : s ∈ child.resourceScopes → s.effect = .allow → p ∈ parent.resourceScopes → p.effect = .deny →
    ¬scopesOverlap p s
  tools  : t ∈ child.toolGrants → ∃ p ∈ parent.toolGrants, p.toolId = t.toolId ∧ t.actions ⊆ p.actions
  skills : k ∈ child.skillGrants →
    ∃ p ∈ parent.skillGrants, p.skillId = k.skillId ∧ k.submodules ⊆ p.submodules
  budget : budgetContains parent.budgetGrant child.budgetGrant

theorem checkScope_ok {scope : ResourceScope} (h : checkScope parent scope = .ok ())
    (he : scope.effect = .allow) :
    (∃ p ∈ parent.resourceScopes, p.effect = .allow ∧ scopeContains p scope) ∧
      ∀ p ∈ parent.resourceScopes, p.effect = .deny → ¬scopesOverlap p scope := by
  unfold checkScope at h
  split at h
  case isTrue hd => simp [he] at hd
  case isFalse =>
    split at h
    case isTrue     => cases h
    case isFalse ha =>
      split at h
      case isTrue     => cases h
      case isFalse hd =>
        constructor
        case left  => simpa [and_assoc] using ha
        case right => simpa using hd

theorem checkTool_ok {tool : ToolGrant} (h : checkTool parent tool = .ok ()) :
    ∃ p ∈ parent.toolGrants, p.toolId = tool.toolId ∧ tool.actions ⊆ p.actions := by
  unfold checkTool at h
  split at h
  case h_1      => cases h
  case h_2 p hg =>
    split at h
    case isFalse   => cases h
    case isTrue ha =>
      have ⟨p', hp, he⟩ := List.mem_map.mp (Assoc.mem_of_get_dict hg)
      have ⟨hi, hp'⟩ := Prod.mk.inj he
      exact ⟨p, hp' ▸ hp, hp' ▸ hi, ha⟩

theorem checkSkill_ok {skill : SkillGrant} (h : checkSkill parent skill = .ok ()) :
    ∃ p ∈ parent.skillGrants, p.skillId = skill.skillId ∧ skill.submodules ⊆ p.submodules := by
  unfold checkSkill at h
  split at h
  case h_1      => cases h
  case h_2 p hg =>
    split at h
    case isFalse   => cases h
    case isTrue ha =>
      have ⟨p', hp, he⟩ := List.mem_map.mp (Assoc.mem_of_get_dict hg)
      have ⟨hi, hp'⟩ := Prod.mk.inj he
      exact ⟨p, hp' ▸ hp, hp' ▸ hi, ha⟩

theorem derive_ok (h : derive parent events id request = .ok child) :
    (∃ request, Builds request (.child parent.revocation id) child) ∧ Within parent child := by
  have ⟨_, _, h⟩ := bind_eq_ok_iff.mp h
  have ⟨_, _, h⟩ := bind_eq_ok_iff.mp h
  have ⟨_, _, h⟩ := bind_eq_ok_iff.mp h
  have ⟨_, _, h⟩ := bind_eq_ok_iff.mp h
  have ⟨scopes, hs, h⟩ := bind_eq_ok_iff.mp h
  have ⟨tools, ht, h⟩ := bind_eq_ok_iff.mp h
  have ⟨skills, hk, h⟩ := bind_eq_ok_iff.mp h
  have ⟨budget, hb, h⟩ := bind_eq_ok_iff.mp h
  have ⟨_, hcs, h⟩ := bind_eq_ok_iff.mp h
  have ⟨_, hct, h⟩ := bind_eq_ok_iff.mp h
  have ⟨_, hck, h⟩ := bind_eq_ok_iff.mp h
  have ⟨_, hc, h⟩ := bind_eq_ok_iff.mp h
  have hg := buildGrant_ok h
  -- The checked grants are normal, so building the child leaves them as they are.
  have hs {s : ResourceScope} (hm : s ∈ child.resourceScopes) : s ∈ scopes := by
    have ⟨r, hr, hn⟩ := hg.scopes.mp hm
    have ⟨_, _, hr'⟩ := (mem_normalizeResourceScopes hs).mp hr
    exact (normalizeScope_ok hr').eq hn ▸ hr
  have ht {t : ToolGrant} (hm : t ∈ child.toolGrants) : t ∈ tools := by
    have ⟨r, hr, hn⟩ := hg.tools.mp hm
    have ⟨_, _, hr'⟩ := (mem_normalizeToolGrants ht).mp hr
    exact normalizeTool_normalized hr' hn ▸ hr
  have hk {k : SkillGrant} (hm : k ∈ child.skillGrants) : k ∈ skills := by
    have ⟨r, hr, hn⟩ := hg.skills.mp hm
    have ⟨_, _, hr'⟩ := (mem_normalizeSkillGrants hk).mp hr
    exact normalizeSkill_normalized hr' hn ▸ hr
  refine ⟨⟨_, hg⟩, ?_⟩
  constructor
  case allow  => exact fun hm he => (checkScope_ok (of_forM hcs (hs hm)) he).left
  case deny   => exact fun hm he hp => (checkScope_ok (of_forM hcs (hs hm)) he).right _ hp
  case tools  => exact fun hm => checkTool_ok (of_forM hct (ht hm))
  case skills => exact fun hm => checkSkill_ok (of_forM hck (hk hm))
  case budget =>
    have he : child.budgetGrant = budget := normalizeBudget_ok hg.budget
    exact he ▸ not_not.mp (raiseIf_eq_ok_iff.mp hc)

end Derive

namespace RevocationToken

variable {token : RevocationToken} {seen seen' ids : List Nat} {events events' : Finset Nat} {id : Nat}

theorem lineage_of_subset (hs : seen' ⊆ seen) (h : token.lineage seen = some ids) :
    token.lineage seen' = some ids := by
  induction token generalizing seen seen' ids with
  | root i =>
    unfold lineage at h ⊢
    split at h
    case isTrue     => cases h
    case isFalse hi => rw [if_neg fun hm => hi (hs hm), h]
  | child parent i hp =>
    unfold lineage at h ⊢
    split at h
    case isTrue     => cases h
    case isFalse hi =>
      have ⟨_, hl, h⟩ := Option.map_eq_some_iff.mp h
      rw [if_neg fun hm => hi (hs hm), hp (List.cons_subset_cons _ hs) hl, Option.map_some, h]

theorem id_mem_lineage (h : token.lineage seen = some ids) : token.id ∈ ids := by
  cases token with
  | root i =>
    unfold lineage at h
    split at h
    case isTrue  => cases h
    case isFalse => exact Option.some.inj h ▸ List.mem_singleton.mpr rfl
  | child parent i =>
    unfold lineage at h
    split at h
    case isTrue  => cases h
    case isFalse =>
      have ⟨_, _, h⟩ := Option.map_eq_some_iff.mp h
      exact h ▸ List.mem_append_right _ (List.mem_singleton.mpr rfl)

theorem revoked_iff : token.revoked events ↔ ∀ ids, token.lineage [] = some ids → ∃ id ∈ ids, id ∈ events := by
  unfold revoked
  cases token.lineage [] with
  | none   => simp
  | some _ => simp

theorem revoked_of_mem (h : token.id ∈ events) : token.revoked events :=
  revoked_iff.mpr fun _ hl => ⟨_, id_mem_lineage hl, h⟩

theorem revoked_child (h : token.revoked events) : (child token id).revoked events := by
  refine revoked_iff.mpr fun ids hl => ?_
  have ⟨parents, hp, he⟩ := Option.map_eq_some_iff.mp hl
  have ⟨i, hi, hm⟩ := revoked_iff.mp h parents (lineage_of_subset (List.nil_subset _) hp)
  exact ⟨i, he ▸ List.mem_append_left _ hi, hm⟩

end RevocationToken

section Chain

inductive Built : AgentGrant → Prop
  | resolve {id : Nat} (h : resolve id policyVersion request = .ok grant) : Built grant
  | derive {id : Nat} (built : Built parent) (h : derive parent events id request = .ok child) : Built child

-- A chain of `derive` calls, each at its own time.
inductive Descends (ancestor : AgentGrant) : AgentGrant → Prop
  | refl : Descends ancestor ancestor
  | derive {id : Nat} (descends : Descends ancestor parent)
    (h : derive parent events id request = .ok child) : Descends ancestor child

structure Contained (ancestor descendant : AgentGrant) : Prop where
  authority     : descendant.authority ⊆ ancestor.authority
  tools         : ∀ t ∈ descendant.toolGrants, ∃ a ∈ ancestor.toolGrants,
    a.toolId = t.toolId ∧ t.actions ⊆ a.actions
  skills        : ∀ k ∈ descendant.skillGrants, ∃ a ∈ ancestor.skillGrants,
    a.skillId = k.skillId ∧ k.submodules ⊆ a.submodules
  providerCalls : descendant.budgetGrant.maxProviderCalls ≤ ancestor.budgetGrant.maxProviderCalls
  toolCalls     : descendant.budgetGrant.maxToolCalls ≤ ancestor.budgetGrant.maxToolCalls
  wallSeconds   : descendant.budgetGrant.maxWallSeconds ≤ ancestor.budgetGrant.maxWallSeconds
  revocation    : ∀ events, ancestor.revocation.revoked events → descendant.revocation.revoked events

variable {parent child ancestor descendant grant : AgentGrant} {events events' : Finset Nat}
  {action resourceType : String} {attributes : Option Attributes}

namespace Contained

theorem refl : Contained grant grant where
  authority         := subset_rfl
  tools t ht        := ⟨t, ht, rfl, subset_rfl⟩
  skills k hk       := ⟨k, hk, rfl, subset_rfl⟩
  providerCalls     := le_rfl
  toolCalls         := le_rfl
  wallSeconds       := le_rfl
  revocation _      := id

theorem trans (h : Contained ancestor parent) (h' : Contained parent descendant) :
    Contained ancestor descendant where
  authority         := h'.authority.trans h.authority
  tools t ht        := by
    have ⟨p, hp, hi, hs⟩ := h'.tools t ht
    have ⟨a, ha, hi', hs'⟩ := h.tools p hp
    exact ⟨a, ha, hi'.trans hi, hs.trans hs'⟩
  skills k hk       := by
    have ⟨p, hp, hi, hs⟩ := h'.skills k hk
    have ⟨a, ha, hi', hs'⟩ := h.skills p hp
    exact ⟨a, ha, hi'.trans hi, hs.trans hs'⟩
  providerCalls     := h'.providerCalls.trans h.providerCalls
  toolCalls         := h'.toolCalls.trans h.toolCalls
  wallSeconds       := h'.wallSeconds.trans h.wallSeconds
  revocation events := h'.revocation events ∘ h.revocation events

end Contained

theorem Built.normal (h : Built grant) : ∀ s ∈ grant.resourceScopes, Normal s := by
  cases h with
  | resolve h  => exact (buildGrant_ok h).normal
  | derive _ h =>
    have ⟨⟨_, hb⟩, _⟩ := derive_ok h
    exact hb.normal

theorem Within.contained {id : Nat} (hp : ∀ s ∈ parent.resourceScopes, Normal s)
    (hc : ∀ s ∈ child.resourceScopes, Normal s) (hr : child.revocation = .child parent.revocation id)
    (h : Within parent child) : Contained parent child where
  authority := by
    intro access ⟨ht, ⟨s, hs, he, ha⟩, _⟩
    refine ⟨ht, ?_, ?_⟩
    · have ⟨p, hm, he', hc'⟩ := h.allow hs he
      exact ⟨p, hm, he', accesses_of_contains (hp p hm) (hc s hs) hc' ha⟩
    · intro ⟨p, hm, hd, ha'⟩
      exact h.deny hs he hm hd <| overlap_of_accesses (hp p hm) (hc s hs) ha' ha
  tools _ ht    := h.tools ht
  skills _ hk   := h.skills hk
  providerCalls := (of_decide_eq_true h.budget).right.left
  toolCalls     := (of_decide_eq_true h.budget).right.right.right.left
  wallSeconds   := (of_decide_eq_true h.budget).right.right.right.right.right
  revocation _  := hr ▸ RevocationToken.revoked_child

theorem Descends.contained (built : Built ancestor) (h : Descends ancestor descendant) :
    Built descendant ∧ Contained ancestor descendant := by
  induction h with
  | refl         => exact ⟨built, .refl⟩
  | derive _ h hi =>
    have ⟨hb, hc⟩ := hi
    have hb' := hb.derive h
    have ⟨⟨_, hg⟩, hw⟩ := derive_ok h
    exact ⟨hb', hc.trans <| hw.contained hb.normal hb'.normal hg.revocation⟩

theorem authorizeActive_revocation :
    (authorizeActive grant action resourceType attributes).revocation = grant.revocation := by
  unfold authorizeActive
  simp only
  split
  case isTrue  => rfl
  case isFalse =>
    split
    case isTrue  => rfl
    case isFalse => split <;> rfl

theorem authorizeActive_granted :
    (authorizeActive grant action resourceType attributes).granted ↔
      ⟨action, resourceType, normalizeAttributes attributes⟩ ∈ grant.authority := by
  have hm {effect : Effect} : (grant.resourceScopes.filter
      (scopeMatchesRequest · action resourceType (normalizeAttributes attributes))).any (·.effect = effect) ↔
      ⟨action, resourceType, normalizeAttributes attributes⟩ ∈ grant.accesses effect := by
    simp [AgentGrant.accesses, ResourceScope.accesses, and_assoc, and_comm]
  unfold authorizeActive
  split
  case isTrue ht  => exact iff_of_false nofun fun h => ht h.left
  case isFalse ht =>
    simp only
    split
    case isTrue hd  => exact iff_of_false nofun fun h => h.right.right (hm.mp hd)
    case isFalse hd =>
      split
      case isTrue ha  => exact iff_of_true rfl ⟨not_not.mp ht, hm.mp ha, mt hm.mpr hd⟩
      case isFalse ha => exact iff_of_false nofun fun h => ha (hm.mpr h.right.left)

-- A decision is allowed as long as the grant was and is in force and the request is within its authority.
theorem allowed_iff : (authorize events grant action resourceType attributes).allowed events' ↔
    ¬grant.revocation.revoked events ∧ ¬grant.revocation.revoked events' ∧
      ⟨action, resourceType, normalizeAttributes attributes⟩ ∈ grant.authority := by
  unfold authorize AuthorizationDecision.allowed
  split
  case isTrue h  => simp [decision, h]
  case isFalse h => simp [authorizeActive_revocation, authorizeActive_granted, h, and_comm]

theorem derived_grants_contained (built : Built ancestor) (h : Descends ancestor descendant) :
    (∀ events action resourceType attributes,
      (authorize events descendant action resourceType attributes).allowed events →
      (authorize events ancestor action resourceType attributes).allowed events) ∧
    (∀ t ∈ descendant.toolGrants, ∃ a ∈ ancestor.toolGrants, a.toolId = t.toolId ∧ t.actions ⊆ a.actions) ∧
    (∀ k ∈ descendant.skillGrants, ∃ a ∈ ancestor.skillGrants,
      a.skillId = k.skillId ∧ k.submodules ⊆ a.submodules) ∧
    descendant.budgetGrant.maxProviderCalls ≤ ancestor.budgetGrant.maxProviderCalls ∧
    descendant.budgetGrant.maxToolCalls ≤ ancestor.budgetGrant.maxToolCalls ∧
    descendant.budgetGrant.maxWallSeconds ≤ ancestor.budgetGrant.maxWallSeconds ∧
    ∀ events events', (ancestor.revocation.revoke events).fst ⊆ events' →
      ∀ action resourceType attributes,
        (authorize events' descendant action resourceType attributes).reason events' = "grant_revoked" ∧
        ∀ earlier, ¬(authorize earlier descendant action resourceType attributes).allowed events' := by
  have ⟨_, hc⟩ := h.contained built
  refine ⟨?_, hc.tools, hc.skills, hc.providerCalls, hc.toolCalls, hc.wallSeconds, ?_⟩
  · intro events action resourceType attributes ha
    have ⟨hr, hr', ha⟩ := allowed_iff.mp ha
    exact allowed_iff.mpr ⟨hr ∘ hc.revocation _, hr' ∘ hc.revocation _, hc.authority ha⟩
  · intro events events' hs action resourceType attributes
    have hr : descendant.revocation.revoked events' :=
      hc.revocation _ <| RevocationToken.revoked_of_mem <| hs <| Finset.mem_insert_self _ _
    constructor
    case left  => simp [authorize, hr, AuthorizationDecision.reason, decision]
    case right => exact fun _ ha => (allowed_iff.mp ha).right.left hr

end Chain

namespace Sample

def scope (path : String) (effect : Effect) : ResourceScope where
  resourceType := "workspace_path"
  actions      := {"read"}
  attributes   := [("path", path)]
  effect       := effect

def request (scopes : List ResourceScope) : Request where
  identity       := ⟨"lead", .coordinator, "project", none, none, none, none⟩
  resourceScopes := scopes
  toolGrants     := [⟨"shell", {"execute"}⟩]
  skillGrants    := []
  budgetGrant    := ⟨1, 1, 1⟩

def grant (scopes : List ResourceScope) (revocation : RevocationToken) : AgentGrant where
  policyVersion  := "v1"
  identity       := (request []).identity
  resourceScopes := scopes
  toolGrants     := (request []).toolGrants
  skillGrants    := []
  budgetGrant    := ⟨1, 1, 1⟩
  revocation     := revocation

def lead : AgentGrant :=
  grant [scope "src" .allow, scope "src/secret" .deny] (.root 0)

def worker : AgentGrant :=
  grant [scope "src/app" .allow] (.child lead.revocation 1)

def helper : AgentGrant :=
  grant [scope "src/app/ui" .allow] (.child worker.revocation 2)

end Sample

open Sample

theorem derived_grants_contained_helper :
    (authorize ∅ helper "read" "workspace_path" (some [("path", "src/app/ui/x")])).allowed ∅ ∧
    (authorize ∅ lead "read" "workspace_path" (some [("path", "src/app/ui/x")])).allowed ∅ := by
  have hl : resolve 0 "v1" (request [scope "src\\." .allow, scope "src/secret" .deny]) = .ok lead := by
    decide +kernel
  have hw : derive lead ∅ 1 (request [scope "src//app" .allow]) = .ok worker := by decide +kernel
  have hh : derive worker ∅ 2 (request [scope "src/app/ui" .allow]) = .ok helper := by decide +kernel
  have ha : (authorize ∅ helper "read" "workspace_path" (some [("path", "src/app/ui/x")])).allowed ∅ := by
    decide +kernel
  have hd := derived_grants_contained (.resolve hl) (.derive (.derive .refl hw) hh)
  exact ⟨ha, hd.left _ _ _ _ ha⟩

end Authorization
