import BridleModel.Context.ConstraintCache

namespace ConstraintCache

variable {τ γ : Type} {env : Env γ} {w w' : World τ γ} {e e' : Entry τ} {l : Lookup τ}
variable {files files' : String → List (Option (Version τ γ))} {path : String} {since versions k : Nat} {mtime : τ} {size : Nat}
variable {store : Store τ} {event : Event τ γ} {events : List (Event τ γ)} {sha256 text : String} {version : Version τ γ}

section Facts

-- The file had this modification time and size at version `k`.
def Stamped (env : Env γ) (versions : List (Option (Version τ γ))) (k : Nat) (mtime : τ) (size : Nat) : Prop :=
  ∃ v, versions[k]? = some (some v) ∧ v.mtime = mtime ∧ env.size v.content = size

-- The text is computed from a content that the file had from version `k` on.
def Shown (f : γ → String) (versions : List (Option (Version τ γ))) (k : Nat) (text : String) : Prop :=
  ∃ j v, k ≤ j ∧ versions[j]? = some (some v) ∧ f v.content = text

-- An entry says what the file had at, or after, the version with its stamp.
structure Faithful (env : Env γ) (versions : List (Option (Version τ γ))) (k : Nat) (e : Entry τ) : Prop where
  stamped  : Stamped env versions k e.mtime e.size
  sha256   : Shown env.sha256 versions k e.sha256
  skeleton : e.metadataSkeleton = "" ∨ Shown env.skeleton versions k e.metadataSkeleton

def Sound (env : Env γ) (files : String → List (Option (Version τ γ))) (store : Store τ) : Prop :=
  ∀ path e, store path = some e → ∃ k, Faithful env (files path) k e

def Located (env : Env γ) (files : String → List (Option (Version τ γ))) (l : Lookup τ) : Prop :=
  match l.position with
  | .statted mtime size             => Stamped env (files l.path) l.since mtime size
  | .loaded mtime size store        => Stamped env (files l.path) l.since mtime size ∧ Sound env files store
  | .hashed mtime size store sha256 =>
    Stamped env (files l.path) l.since mtime size ∧ Sound env files store ∧ Shown env.sha256 (files l.path) l.since sha256
  | .scanned store e                => Sound env files store ∧ Faithful env (files l.path) l.since e
  | .returned e versions            =>
    versions ≤ (files l.path).length ∧ Faithful env ((files l.path).take versions) l.since e
  | .raised                         => True

-- No two versions of a file have the same modification time and size.
def Fresh (env : Env γ) (files : String → List (Option (Version τ γ))) : Prop :=
  ∀ path i j mtime size, Stamped env (files path) i mtime size → Stamped env (files path) j mtime size → i = j

structure Coherent (env : Env γ) (w : World τ γ) : Prop where
  fresh   : Fresh env w.files
  store   : Sound env w.files w.store
  lookups : ∀ id l, w.lookups id = some l → Located env w.files l

end Facts

section Grow

-- The files get new versions only.
def Grows (files files' : String → List (Option (Version τ γ))) : Prop :=
  ∀ path, files path <+: files' path

theorem getElem?_grow {α : Type} {xs ys : List α} {x : α} (h : xs[k]? = some x) (hg : xs <+: ys) : ys[k]? = some x := by
  have ⟨rest, hr⟩ := hg
  have ⟨hk, _⟩ := List.getElem?_eq_some_iff.mp h
  rwa [← hr, List.getElem?_append_left hk]

theorem Stamped.grow {vs vs' : List (Option (Version τ γ))} (h : Stamped env vs k mtime size) (hg : vs <+: vs') :
    Stamped env vs' k mtime size := by
  have ⟨v, hv, hs⟩ := h
  exact ⟨v, getElem?_grow hv hg, hs⟩

theorem Shown.grow {f : γ → String} {vs vs' : List (Option (Version τ γ))} (h : Shown f vs k text) (hg : vs <+: vs') :
    Shown f vs' k text := by
  have ⟨j, v, hj, hv, ht⟩ := h
  exact ⟨j, v, hj, getElem?_grow hv hg, ht⟩

theorem Faithful.grow {vs vs' : List (Option (Version τ γ))} (h : Faithful env vs k e) (hg : vs <+: vs') :
    Faithful env vs' k e where
  stamped  := h.stamped.grow hg
  sha256   := h.sha256.grow hg
  skeleton := h.skeleton.imp_right (·.grow hg)

theorem Sound.grow (h : Sound env files store) (hg : Grows files files') : Sound env files' store := by
  intro path e he
  have ⟨k, hk⟩ := h path e he
  exact ⟨k, hk.grow (hg path)⟩

theorem Located.grow (h : Located env files l) (hg : Grows files files') : Located env files' l := by
  unfold Located at h ⊢
  split at h
  case h_1 => exact h.grow (hg l.path)
  case h_2 => exact ⟨h.left.grow (hg l.path), h.right.grow hg⟩
  case h_3 => exact ⟨h.left.grow (hg l.path), h.right.left.grow hg, h.right.right.grow (hg l.path)⟩
  case h_4 => exact ⟨h.left.grow hg, h.right.grow (hg l.path)⟩
  case h_5 =>
    have ⟨rest, hr⟩ := hg l.path
    rw [← hr, List.take_append_of_le_length h.left, List.length_append]
    exact ⟨Nat.le_trans h.left (Nat.le_add_right _ _), h.right⟩
  case h_6 => trivial

end Grow

section Files

-- The stamp of a new version was not that of an earlier one.
def New (env : Env γ) (w : World τ γ) (path : String) (version : Version τ γ) : Prop :=
  ∀ k, ¬Stamped env (w.files path) k version.mtime (env.size version.content)

theorem grows_setFile {v : Option (Version τ γ)} : Grows w.files (w.setFile path v).files := by
  intro path'
  rw [World.setFile]
  dsimp only
  rw [Function.update_apply]
  split
  case isTrue he => exact he ▸ List.prefix_append _ _
  case isFalse   => exact List.prefix_rfl

theorem stamped_concat {vs : List (Option (Version τ γ))} {v : Option (Version τ γ)}
    (h : Stamped env (vs ++ [v]) k mtime size) :
    Stamped env vs k mtime size ∨ k = vs.length ∧ ∃ u, v = some u ∧ u.mtime = mtime ∧ env.size u.content = size := by
  have ⟨u, hu, hs⟩ := h
  rw [List.getElem?_append] at hu
  split at hu
  case isTrue     => exact .inl ⟨u, hu, hs⟩
  case isFalse hk =>
    have ⟨hz, he⟩ := List.getElem?_singleton .. ▸ hu |> Option.ite_none_right_eq_some.mp
    exact .inr ⟨by omega, u, by simpa using he, hs⟩

theorem Fresh.setFile {v : Option (Version τ γ)} (h : Fresh env w.files) (hn : ∀ u, v = some u → New env w path u) :
    Fresh env (w.setFile path v).files := by
  intro path' i j mtime size hi hj
  rw [World.setFile] at hi hj
  dsimp only at hi hj
  rw [Function.update_apply] at hi hj
  split at hi
  case isFalse hne =>
    rw [if_neg hne] at hj
    exact h path' i j mtime size hi hj
  case isTrue he =>
    rw [if_pos he] at hj
    cases stamped_concat hi with
    | inl hi =>
      cases stamped_concat hj with
      | inl hj => exact h path i j mtime size hi hj
      | inr hj =>
        have ⟨_, u, hu, hm, hs⟩ := hj
        exact absurd (hm ▸ hs ▸ hi) (hn u hu i)
    | inr hi =>
      have ⟨hlast, u, hu, hm, hs⟩ := hi
      cases stamped_concat hj with
      | inl hj => exact absurd (hm ▸ hs ▸ hj) (hn u hu j)
      | inr hj => rw [hlast, hj.left]

theorem Coherent.setFile {v : Option (Version τ γ)} (h : Coherent env w) (hn : ∀ u, v = some u → New env w path u) :
    Coherent env (w.setFile path v) where
  fresh   := h.fresh.setFile hn
  store   := h.store.grow grows_setFile
  lookups := fun id l hl => (h.lookups id l hl).grow grows_setFile

theorem current_eq_some (h : w.current path = some version) :
    (w.files path)[(w.files path).length - 1]? = some (some version) := by
  rw [World.current, Option.join_eq_some_iff, List.getLast?_eq_getElem?] at h
  exact h

theorem sound_none : Sound env files fun _ => none :=
  fun _ _ h => nomatch h

theorem Stamped.lt {vs : List (Option (Version τ γ))} (h : Stamped env vs k mtime size) : k < vs.length := by
  have ⟨_, hv, _⟩ := h
  exact (List.getElem?_eq_some_iff.mp hv).fst

theorem Shown.last {f : γ → String} {vs : List (Option (Version τ γ))} (h : Shown f (vs.take (k + 1)) k text)
    (hv : vs[k]? = some (some version)) : text = f version.content := by
  have ⟨j, v, hj, hs, ht⟩ := h
  have hlt := (List.getElem?_eq_some_iff.mp hs).fst
  rw [List.length_take] at hlt
  have hsame : j = k := by omega
  rw [hsame, List.getElem?_take_of_lt (Nat.lt_succ_self k), hv] at hs
  cases hs
  exact ht.symm

end Files

section Calls

variable {id : Nat}

theorem Coherent.setLookup (h : Coherent env w) (hl : Located env w.files l) : Coherent env (w.setLookup id l) where
  fresh   := h.fresh
  store   := h.store
  lookups := by
    intro id' l' hl'
    rw [World.setLookup] at hl'
    dsimp only at hl'
    rw [Function.update_apply] at hl'
    split at hl'
    case isTrue  =>
      cases hl'
      exact hl
    case isFalse => exact h.lookups id' l' hl'

theorem Coherent.answer (h : Coherent env w) (hf : Faithful env (w.files l.path) l.since e) :
    Coherent env (w.answer id l e) :=
  h.setLookup ⟨Nat.le_refl _, by rwa [List.take_length]⟩

theorem Coherent.stat (h : Coherent env w) : Coherent env (w.stat env id path) := by
  rw [World.stat]
  split
  case h_1 version hv =>
    split
    case isTrue  => exact h.setLookup ⟨version, current_eq_some hv, rfl, rfl⟩
    case isFalse => exact h.setLookup trivial
  case h_2 => exact h.setLookup trivial

theorem Coherent.skeleton {readable : Bool} {now : String} (h : Coherent env w)
    (hv : Stamped env (w.files l.path) l.since mtime size) (hs : Sound env w.files store)
    (hsha : Shown env.sha256 (w.files l.path) l.since sha256) :
    Coherent env (w.skeleton env id readable now l mtime size store sha256) := by
  have hlt := hv.lt
  rw [World.skeleton]
  refine h.setLookup ⟨hs, hv, hsha, ?_⟩
  dsimp only
  split
  case h_1 version hc =>
    split
    case isTrue  => exact .inr ⟨(w.files l.path).length - 1, version, by omega, current_eq_some hc, rfl⟩
    case isFalse => exact .inl rfl
  case h_2 => exact .inl rfl

theorem Coherent.save (h : Coherent env w) (hs : Sound env w.files store) (hf : Faithful env (w.files l.path) l.since e) :
    Coherent env (w.save id l store e) := by
  have hstore : Sound env w.files (Function.update store l.path (some e)) := by
    intro path e' he
    rw [Function.update_apply] at he
    split at he
    case isTrue hp =>
      cases he
      exact ⟨l.since, hp ▸ hf⟩
    case isFalse   => exact hs path e' he
  have hw : Coherent env { w with store := Function.update store l.path (some e) } :=
    { fresh := h.fresh, store := hstore, lookups := h.lookups }
  exact hw.answer hf

variable [DecidableEq τ]

-- A hit is an entry for the version that the call has seen.
theorem hit_faithful {valid : String → Bool} (hf : Fresh env w.files) (hs : Sound env w.files store)
    (hv : Stamped env (w.files path) since mtime size) (hh : World.hit (store path) mtime size valid = some e) :
    Faithful env (w.files path) since e := by
  unfold World.hit at hh
  split at hh
  case h_1            => cases hh
  case h_2 cached hc  =>
    have ⟨hm, he⟩ := Option.ite_none_right_eq_some.mp hh
    have ⟨k, hk⟩ := hs path cached hc
    have hsame : k = since := hf path k since mtime size (hm.left ▸ hm.right.left ▸ hk.stamped) hv
    cases he
    exact hsame ▸ ⟨hk.stamped, hk.sha256, hk.skeleton⟩

theorem Coherent.load {readable : Bool} (h : Coherent env w) (hv : Stamped env (w.files l.path) l.since mtime size) :
    Coherent env (w.load id readable l mtime size) := by
  have hs : Sound env w.files (if readable then w.store else fun _ => none) := by
    split
    case isTrue  => exact h.store
    case isFalse => exact sound_none
  rw [World.load]
  split
  case h_1 hh => exact h.answer (hit_faithful h.fresh hs hv hh)
  case h_2    => exact h.setLookup ⟨hv, hs⟩

theorem Coherent.hash (h : Coherent env w) (hle : l.since < (w.files l.path).length)
    (hv : Stamped env (w.files l.path) l.since mtime size) (hs : Sound env w.files store) :
    Coherent env (w.hash env id l mtime size store) := by
  rw [World.hash]
  split
  case h_1            => exact h.setLookup trivial
  case h_2 version hc =>
    dsimp only
    split
    case h_1 hh => exact h.answer (hit_faithful h.fresh hs hv hh)
    case h_2    =>
      have hlast : l.since ≤ (w.files l.path).length - 1 := by omega
      exact h.setLookup ⟨hv, hs, (w.files l.path).length - 1, version, hlast, current_eq_some hc, rfl⟩

theorem Coherent.step (h : Coherent env w) (hn : ∀ path version, event = .write path version → New env w path version)
    (hs : w.step env event = some w') : Coherent env w' := by
  cases event with
  | write path version =>
    cases hs
    exact h.setFile fun u hu => Option.some.inj hu ▸ hn path version rfl
  | remove path        =>
    cases hs
    exact h.setFile fun u hu => nomatch hu
  | damage             =>
    cases hs
    exact { fresh := h.fresh, store := sound_none, lookups := h.lookups }
  | stat id path       =>
    have ⟨_, hs⟩ := Option.ite_none_left_eq_some.mp hs
    cases hs
    exact h.stat
  | load id readable   =>
    simp only [World.step] at hs
    split at hs
    case h_2      => cases hs
    case h_1 l hl =>
      split at hs
      case h_2    => cases hs
      case h_1 hp =>
        cases hs
        have hloc := h.lookups id l hl
        rw [Located, hp] at hloc
        exact h.load hloc
  | hash id            =>
    simp only [World.step] at hs
    split at hs
    case h_2      => cases hs
    case h_1 l hl =>
      split at hs
      case h_2    => cases hs
      case h_1 hp =>
        cases hs
        have hloc := h.lookups id l hl
        rw [Located, hp] at hloc
        exact h.hash hloc.left.lt hloc.left hloc.right
  | skeleton id readable now =>
    simp only [World.step] at hs
    split at hs
    case h_2      => cases hs
    case h_1 l hl =>
      split at hs
      case h_2    => cases hs
      case h_1 hp =>
        cases hs
        have hloc := h.lookups id l hl
        rw [Located, hp] at hloc
        exact h.skeleton hloc.left hloc.right.left hloc.right.right
  | save id            =>
    simp only [World.step] at hs
    split at hs
    case h_2      => cases hs
    case h_1 l hl =>
      split at hs
      case h_2    => cases hs
      case h_1 hp =>
        cases hs
        have hloc := h.lookups id l hl
        rw [Located, hp] at hloc
        exact h.save hloc.left hloc.right

end Calls

section Runs

variable [DecidableEq τ] {id : Nat} {s₀ : World τ γ}

theorem Coherent.init (hi : (cacheSystem env).init s₀) : Coherent env s₀ where
  fresh   := by
    intro path i j mtime size hi' hj'
    have hlen := hi.left path
    have hi' := hi'.lt
    have hj' := hj'.lt
    omega
  store   := fun path e he => absurd he (hi.right.left path ▸ nofun)
  lookups := fun id l hl => absurd hl (hi.right.right id ▸ nofun)

-- No write gives a file a modification time and size that it had before.
def Marked (env : Env γ) (s₀ : World τ γ) (events : List (Event τ γ)) : Prop :=
  ∀ s₁ path version s₂, (cacheSystem env).Occurs s₀ events s₁ (.write path version) s₂ → New env s₁ path version

theorem Coherent.run (hi : (cacheSystem env).init s₀) (hn : Marked env s₀ events)
    (hr : (cacheSystem env).run s₀ events = some w) : Coherent env w := by
  refine TransitionSystem.Occurs.run_invariant (Coherent.init hi) ?_ hr
  intro s₁ a s₂ ho h
  refine h.step ?_ ho.step
  intro path version he
  exact hn s₁ path version s₂ (he ▸ ho)

end Runs

section Sample

def sampleEnv : Env String where
  size     := String.length
  sha256   := fun content =>
    if content = "a" then "ca978112ca1bbdcafac231b39a23dc4da786eff8147c4e72b9807785afee48bb"
    else "1e0bbd6c686ba050b8eb03ffeedc64fdc9d80947fce821abbe5d6dc8d252c5ac"
  skeleton := id
  within   := fun _ => true

def sampleStart : World Nat String where
  files   := fun path => if path = "/w/rules.md" then [some ⟨1, "a"⟩] else []
  store   := fun _ => none
  lookups := fun _ => none

def sampleEvents : List (Event Nat String) :=
  [
    .stat 0 "/w/rules.md", .load 0 true, .hash 0, .skeleton 0 true "t", .save 0, .write "/w/rules.md" ⟨2, "bc"⟩,
    .stat 1 "/w/rules.md", .load 1 true, .hash 1, .skeleton 1 true "u", .save 1, .stat 2 "/w/rules.md", .load 2 true
  ]

def outcome (l : Lookup Nat) : Option (Entry Nat × Nat) :=
  match l.position with
  | .returned e versions => some (e, versions)
  | _                    => none

def marks (w : World Nat String) : Event Nat String → Bool
  | .write path version =>
    (w.files path).all fun v => v.all fun v => v.mtime ≠ version.mtime ∨ v.content.length ≠ version.content.length
  | _                   => true

theorem sample_marked : Marked sampleEnv sampleStart sampleEvents := by
  intro s₁ path version s₂ ho k ⟨v, hv, hm, hs⟩
  have hall : marks s₁ (.write path version) = true := ho.along (p := marks) (by decide +kernel)
  have hv := List.all_eq_true.mp hall _ (List.mem_of_getElem? hv)
  simp only [Option.all_some, decide_eq_true_eq] at hv
  cases hv with
  | inl hv => exact hv hm
  | inr hv => exact hv hs

end Sample
end ConstraintCache
