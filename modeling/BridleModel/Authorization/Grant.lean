import Mathlib.Algebra.Order.Ring.Rat
import Mathlib.Data.Finset.Sort
import Mathlib.Data.String.Basic
import BridleModel.Json
import BridleModel.Library.Assoc
import BridleModel.Library.Except
import BridleModel.Library.Orders
import BridleModel.Python.Path
import BridleModel.Python.Text

open Except Python

namespace Authorization

section Data

inductive AgentRole
  | coordinator
  | projectMapper
  | implementer
  | verifier
  | reviewer
deriving DecidableEq, Repr

structure AgentIdentity where
  principalId : String
  role        : AgentRole
  projectId   : String
  sessionId   : Option String
  runId       : Option String
  ownerId     : Option String
  agentId     : Option String
deriving DecidableEq, Repr

inductive Effect
  | allow
  | deny
deriving DecidableEq, Repr

def Effect.value : Effect → String
  | allow => "allow"
  | deny  => "deny"

abbrev Attributes :=
  List (String × String)

structure ResourceScope where
  resourceType : String
  actions      : Finset String
  attributes   : Attributes
  effect       : Effect
deriving DecidableEq

structure ToolGrant where
  toolId  : String
  actions : Finset String
deriving DecidableEq

structure SkillGrant where
  skillId    : String
  submodules : Finset String
deriving DecidableEq

-- A finite float stands for the rational number it denotes.
structure BudgetGrant where
  maxProviderCalls : Int
  maxToolCalls     : Int
  maxWallSeconds   : Rat
deriving DecidableEq

-- The flag of a token is the event with its number.
inductive RevocationToken
  | root (id : Nat)
  | child (parent : RevocationToken) (id : Nat)
deriving DecidableEq, Repr

structure AgentGrant where
  policyVersion  : String
  identity       : AgentIdentity
  resourceScopes : List ResourceScope
  toolGrants     : List ToolGrant
  skillGrants    : List SkillGrant
  budgetGrant    : BudgetGrant
  revocation     : RevocationToken
deriving DecidableEq

structure AuthorizationDecision where
  granted    : Bool
  because    : String
  revocation : RevocationToken

end Data

namespace RevocationToken

def id : RevocationToken → Nat
  | root id | child _ id => id

-- `_lineage`, the root first. A cycle has none.
def lineage (seen : List Nat) : RevocationToken → Option (List Nat)
  | root id         => if id ∈ seen then none else some [id]
  | child parent id =>
    if id ∈ seen then none else (parent.lineage (id :: seen)).map (· ++ [id])

def revoked (events : Finset Nat) (token : RevocationToken) : Bool :=
  match token.lineage [] with
  | none         => true
  | some lineage => lineage.any (· ∈ events)

-- The set events afterwards, and whether this call has set one.
def revoke (events : Finset Nat) (token : RevocationToken) : Finset Nat × Bool :=
  (insert token.id events, token.id ∉ events)

end RevocationToken

namespace AuthorizationDecision

def allowed (events : Finset Nat) (decision : AuthorizationDecision) : Bool :=
  decision.granted && !decision.revocation.revoked events

def reason (events : Finset Nat) (decision : AuthorizationDecision) : String :=
  if decision.granted ∧ decision.revocation.revoked events then "grant_revoked" else decision.because

end AuthorizationDecision

def knownResourceTypes : List String := [
  "tool", "skill", "workspace_path", "candidate", "test_command", "map_seed", "map_revision",
  "plan_operation", "agent_run", "network", "provider_budget", "tool_budget", "time_budget"
]

section Normalize

-- `_normalize_relative_path`
def normalizeRelativePath (path : String) : Except String String :=
  if path = "" ∨ Char.ofNat 0 ∈ path.toList then
    .error "invalid_path: path must be a non-empty string"
  else
    let replaced := path.toList.map fun c => if c = '\\' then '/' else c
    let firstSegment := replaced.takeWhile (· ≠ '/')
    let normalized := normpath replaced
    if normalized = ['.', '.'] ∨ ['.', '.', '/'] <+: normalized ∨ ['/'] <+: normalized ∨
        [':'] <:+ firstSegment then
      .error "invalid_path: path must remain workspace-relative"
    else
      .ok (.ofList normalized)

def normalizeScopeAttributes (keys : List String) : Attributes → Except String Attributes
  | []                         => .ok []
  | (key, value) :: attributes =>
    if strip key = "" then
      .error "invalid_attribute: attribute keys and values must be strings"
    else if key ∈ keys then
      .error ("duplicate_attribute: " ++ key)
    else
      match if key = "path" then normalizeRelativePath value else .ok value with
      | .error e  => .error e
      | .ok value => (normalizeScopeAttributes (key :: keys) attributes).map ((key, value) :: ·)

-- The order of pairs of texts.
def pairLe (a b : String × String) : Prop :=
  a.fst < b.fst ∨ (a.fst = b.fst ∧ a.snd ≤ b.snd)

instance : DecidableRel pairLe :=
  fun a b => inferInstanceAs (Decidable (a.fst < b.fst ∨ (a.fst = b.fst ∧ a.snd ≤ b.snd)))

def normalizeScope (scope : ResourceScope) : Except String ResourceScope :=
  if scope.resourceType ∉ knownResourceTypes then
    .error "unknown_resource: resource type is not registered"
  else if scope.actions = ∅ ∨ ∃ action ∈ scope.actions, strip action = "" then
    .error "invalid_action: actions must be non-empty strings"
  else
    (normalizeScopeAttributes [] scope.attributes).map fun attributes => {
      scope with
      actions    := scope.actions.image strip
      attributes := attributes.insertionSort pairLe
    }

-- `_scope_sort_key`
def scopeSortKey (scope : ResourceScope) : String :=
  Json.dumps <| .obj [
    ("resource_type", .str scope.resourceType),
    ("actions", .arr (scope.actions.sort.map .str)),
    ("attributes", .arr (scope.attributes.map fun a => .arr [.str a.fst, .str a.snd])),
    ("effect", .str scope.effect.value)
  ]

-- `tuple(sorted(set(items), key=...))`
def sortedSet {α : Type} [DecidableEq α] (le : α → α → Prop) [DecidableRel le] (items : List α) : List α :=
  items.dedup.insertionSort le

def scopeLe (a b : ResourceScope) : Prop :=
  scopeSortKey a ≤ scopeSortKey b

instance : DecidableRel scopeLe :=
  fun a b => inferInstanceAs (Decidable (scopeSortKey a ≤ scopeSortKey b))

def normalizeResourceScopes (scopes : List ResourceScope) : Except String (List ResourceScope) :=
  (scopes.mapM normalizeScope).map (sortedSet scopeLe)

-- The order of the pairs of a name with sorted texts.
def namedLe (a b : String) (as bs : Finset String) : Prop :=
  a < b ∨ (a = b ∧ as.sort ≤ bs.sort)

instance (a b : String) (as bs : Finset String) : Decidable (namedLe a b as bs) :=
  inferInstanceAs (Decidable (a < b ∨ (a = b ∧ as.sort ≤ bs.sort)))

def toolLe (a b : ToolGrant) : Prop :=
  namedLe a.toolId b.toolId a.actions b.actions

instance : DecidableRel toolLe :=
  fun _ _ => inferInstanceAs (Decidable (namedLe _ _ _ _))

def normalizeTool (grant : ToolGrant) : Except String ToolGrant :=
  if strip grant.toolId = "" then
    .error "invalid_tool_grant: tool_id must be non-empty"
  else if grant.actions = ∅ ∨ ∃ action ∈ grant.actions, strip action = "" then
    .error "invalid_tool_grant: actions must be non-empty strings"
  else
    .ok { toolId := strip grant.toolId, actions := grant.actions.image strip }

def normalizeToolGrants (grants : List ToolGrant) : Except String (List ToolGrant) :=
  (grants.mapM normalizeTool).map (sortedSet toolLe)

def skillLe (a b : SkillGrant) : Prop :=
  namedLe a.skillId b.skillId a.submodules b.submodules

instance : DecidableRel skillLe :=
  fun _ _ => inferInstanceAs (Decidable (namedLe _ _ _ _))

def normalizeSkill (grant : SkillGrant) : Except String SkillGrant :=
  if strip grant.skillId = "" then
    .error "invalid_skill_grant: skill_id must be non-empty"
  else if ∃ submodule ∈ grant.submodules, strip submodule = "" then
    .error "invalid_skill_grant: submodules must be non-empty strings"
  else
    .ok { skillId := strip grant.skillId, submodules := grant.submodules.image strip }

def normalizeSkillGrants (grants : List SkillGrant) : Except String (List SkillGrant) :=
  (grants.mapM normalizeSkill).map (sortedSet skillLe)

def normalizeBudget (budget : BudgetGrant) : Except String BudgetGrant :=
  if budget.maxProviderCalls < 0 then
    .error "invalid_budget: max_provider_calls must be a non-negative int"
  else if budget.maxToolCalls < 0 then
    .error "invalid_budget: max_tool_calls must be a non-negative int"
  else if budget.maxWallSeconds < 0 then
    .error "invalid_budget: max_wall_seconds must be finite and non-negative"
  else
    .ok budget

def validateIdentity (identity : AgentIdentity) : Except String Unit :=
  let required := [("principal_id", identity.principalId), ("project_id", identity.projectId)]
  let optional := [("session_id", identity.sessionId), ("run_id", identity.runId),
    ("owner_id", identity.ownerId), ("agent_id", identity.agentId)]
  match required.find? (strip ·.snd = "") with
  | some (name, _) => .error ("invalid_identity: " ++ name ++ " must be non-empty")
  | none           =>
    match optional.find? (·.snd.any (strip · = "")) with
    | some (name, _) => .error ("invalid_identity: " ++ name ++ " must be non-empty when set")
    | none           => .ok ()

def normalizeAttributes (attributes : Option Attributes) : Attributes :=
  (attributes.getD []).insertionSort pairLe

end Normalize

section Match

def pathContains (parent child : String) : Bool :=
  match normalizeRelativePath parent, normalizeRelativePath child with
  | .ok parent, .ok child =>
    let parent := parent.toList
    let child := child.toList
    parent = ['.'] ∨ child = parent ∨ parent.rdropWhile (· = '/') ++ ['/'] <+: child
  | _, _ => false

-- The comparison of one attribute in `_scope_matches_request` and `_scope_contains`.
def attributeContains (key expected actual : String) : Bool :=
  if key = "path" then pathContains expected actual else actual = expected

def scopeMatchesRequest (scope : ResourceScope) (action resourceType : String)
    (requestAttributes : Attributes) : Bool :=
  let request := Assoc.dict requestAttributes
  scope.resourceType = resourceType ∧ action ∈ scope.actions ∧
    scope.attributes.all fun a => (Assoc.get request a.fst).any (attributeContains a.fst a.snd)

def scopeContains (parent child : ResourceScope) : Bool :=
  let childAttributes := Assoc.dict child.attributes
  parent.resourceType = child.resourceType ∧ child.actions ⊆ parent.actions ∧
    (Assoc.dict parent.attributes).all fun a =>
      (Assoc.get childAttributes a.fst).any (attributeContains a.fst a.snd)

def scopesOverlap (left right : ResourceScope) : Bool :=
  let rightAttributes := Assoc.dict right.attributes
  left.resourceType = right.resourceType ∧ left.actions ∩ right.actions ≠ ∅ ∧
    (Assoc.dict left.attributes).all fun a =>
      (Assoc.get rightAttributes a.fst).all fun value =>
        if a.fst = "path" then
          pathContains a.snd value ∨ pathContains value a.snd
        else
          a.snd = value

def budgetContains (parent child : BudgetGrant) : Bool :=
  0 ≤ child.maxProviderCalls ∧ child.maxProviderCalls ≤ parent.maxProviderCalls ∧
    0 ≤ child.maxToolCalls ∧ child.maxToolCalls ≤ parent.maxToolCalls ∧
    0 ≤ child.maxWallSeconds ∧ child.maxWallSeconds ≤ parent.maxWallSeconds

end Match

-- The arguments of `resolve` and `derive`.
structure Request where
  identity       : AgentIdentity
  resourceScopes : List ResourceScope
  toolGrants     : List ToolGrant
  skillGrants    : List SkillGrant
  budgetGrant    : BudgetGrant

def buildGrant (policyVersion : String) (request : Request) (revocation : RevocationToken) :
    Except String AgentGrant := do
  raiseIf (strip policyVersion = "") "invalid_policy_version: policy_version must be non-empty"
  validateIdentity request.identity
  let resourceScopes ← normalizeResourceScopes request.resourceScopes
  let toolGrants ← normalizeToolGrants request.toolGrants
  let skillGrants ← normalizeSkillGrants request.skillGrants
  let budgetGrant ← normalizeBudget request.budgetGrant
  return {
    policyVersion
    identity := request.identity
    resourceScopes
    toolGrants
    skillGrants
    budgetGrant
    revocation
  }

-- `id` numbers the event of the new token.
def resolve (id : Nat) (policyVersion : String) (request : Request) : Except String AgentGrant :=
  buildGrant policyVersion request (.root id)

def decision (grant : AgentGrant) (granted : Bool) (because : String) : AuthorizationDecision where
  granted    := granted
  because    := because
  revocation := grant.revocation

def authorizeActive (grant : AgentGrant) (action resourceType : String)
    (attributes : Option Attributes) : AuthorizationDecision :=
  if resourceType ∉ knownResourceTypes then
    decision grant false "unknown_resource"
  else
    let matching := grant.resourceScopes.filter
      (scopeMatchesRequest · action resourceType (normalizeAttributes attributes))
    if matching.any (·.effect = .deny) then
      decision grant false "explicit_deny"
    else if matching.any (·.effect = .allow) then
      decision grant true "allowed"
    else
      decision grant false "default_deny"

def authorize (events : Finset Nat) (grant : AgentGrant) (action resourceType : String)
    (attributes : Option Attributes) : AuthorizationDecision :=
  if grant.revocation.revoked events then
    decision grant false "grant_revoked"
  else
    authorizeActive grant action resourceType attributes

section Derive

variable (parent : AgentGrant)

def checkScope (child : ResourceScope) : Except String Unit :=
  if child.effect = .deny then
    .ok ()
  else if ¬(parent.resourceScopes.filter (·.effect = .allow)).any (scopeContains · child) then
    .error "scope_escalation: resource scope exceeds parent"
  else if (parent.resourceScopes.filter (·.effect = .deny)).any (scopesOverlap · child) then
    .error "scope_escalation: resource scope conflicts with parent deny"
  else
    .ok ()

def checkTool (child : ToolGrant) : Except String Unit :=
  match Assoc.get (Assoc.dict (parent.toolGrants.map fun t => (t.toolId, t))) child.toolId with
  | none   => .error "scope_escalation: tool grant exceeds parent"
  | some t =>
    if child.actions ⊆ t.actions then .ok () else .error "scope_escalation: tool grant exceeds parent"

def checkSkill (child : SkillGrant) : Except String Unit :=
  match Assoc.get (Assoc.dict (parent.skillGrants.map fun s => (s.skillId, s))) child.skillId with
  | none   => .error "scope_escalation: skill grant exceeds parent"
  | some s =>
    if child.submodules ⊆ s.submodules then
      .ok ()
    else
      .error "scope_escalation: skill grant exceeds parent"

def derive (events : Finset Nat) (id : Nat) (request : Request) : Except String AgentGrant := do
  raiseIf (parent.revocation.revoked events) "grant_revoked: cannot derive from a revoked grant"
  validateIdentity request.identity
  raiseIf (request.identity.projectId ≠ parent.identity.projectId)
    "scope_escalation: child project_id differs from parent"
  raiseIf (request.identity.sessionId ≠ parent.identity.sessionId)
    "scope_escalation: child session_id differs from parent"
  let resourceScopes ← normalizeResourceScopes request.resourceScopes
  let toolGrants ← normalizeToolGrants request.toolGrants
  let skillGrants ← normalizeSkillGrants request.skillGrants
  let budgetGrant ← normalizeBudget request.budgetGrant
  resourceScopes.forM (checkScope parent)
  toolGrants.forM (checkTool parent)
  skillGrants.forM (checkSkill parent)
  raiseIf (¬budgetContains parent.budgetGrant budgetGrant) "scope_escalation: budget exceeds parent"
  buildGrant parent.policyVersion
    { identity := request.identity, resourceScopes, toolGrants, skillGrants, budgetGrant }
    (.child parent.revocation id)

end Derive
end Authorization
