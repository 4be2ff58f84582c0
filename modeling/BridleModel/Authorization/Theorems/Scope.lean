import Mathlib.Data.Set.Basic
import BridleModel.Authorization.Grant
import BridleModel.Library.Except

open Python

namespace Authorization

section Path

variable {path path' normalized normalized' : String} {comps comps' : List (List Char)}

-- The path leads along these names, from the root of the workspace.
structure Components (path : String) (comps : List (List Char)) : Prop where
  normalized : normalizeRelativePath path = .ok (.ofList (renderPath comps))
  names      : ∀ comp ∈ comps, Name comp

theorem normalizeRelativePath_ok (h : normalizeRelativePath path = .ok normalized) :
    ∃ comps, Components path comps ∧ normalized = .ofList (renderPath comps) ∧ '\\' ∉ renderPath comps := by
  have hp := h
  unfold normalizeRelativePath at h
  split at h
  case isTrue => cases h
  case isFalse =>
    simp only at h
    split at h
    case isTrue => cases h
    case isFalse hc =>
      simp only [not_or] at hc
      have ⟨comps, hn, hr⟩ := normpath_names hc.right.right.left hc.left hc.right.left
      rw [hr] at h
      cases h
      refine ⟨comps, ⟨hp, hn⟩, rfl, fun hm => ?_⟩
      cases mem_of_mem_normpath (hr ▸ hm) with
      | inl hm =>
        have ⟨c, _, hc⟩ := List.mem_map.mp hm
        split at hc
        case isTrue  => exact absurd hc (by decide)
        case isFalse => contradiction
      | inr hm => exact absurd hm (by decide)

theorem normalizeRelativePath_normalized (h : normalizeRelativePath path = .ok normalized)
    (h' : normalizeRelativePath normalized = .ok normalized') : normalized' = normalized := by
  have ⟨comps, hc, hn, hb⟩ := normalizeRelativePath_ok h
  subst hn
  unfold normalizeRelativePath at h'
  split at h'
  case isTrue => cases h'
  case isFalse =>
    have hm : (renderPath comps).map (fun c => if c = '\\' then '/' else c) = renderPath comps := by
      refine (List.map_congr_left fun c hm => ?_).trans (List.map_id _)
      exact if_neg fun he : c = '\\' => hb (he ▸ hm)
    simp only [String.toList_ofList, hm, normpath_render hc.names] at h'
    split at h'
    case isTrue  => cases h'
    case isFalse => exact (Except.ok.inj h').symm

theorem Components.unique (h : Components path comps) (h' : Components path comps') : comps = comps' := by
  have he := Except.ok.inj (h.normalized.symm.trans h'.normalized)
  exact renderPath_injective h.names h'.names (String.ofList_injective he)

theorem pathContains_iff :
    pathContains path path' ↔ ∃ comps comps', Components path comps ∧ Components path' comps' ∧ comps <+: comps' := by
  constructor
  case mp =>
    intro h
    unfold pathContains at h
    split at h
    case h_2 => cases h
    case h_1 parent child hn hn' =>
      have ⟨comps, hp, hr, _⟩ := normalizeRelativePath_ok hn
      have ⟨comps', hc, hr', _⟩ := normalizeRelativePath_ok hn'
      subst hr hr'
      refine ⟨comps, comps', hp, hc, ?_⟩
      simp only [String.toList_ofList, rdropWhile_render hp.names, decide_eq_true_eq] at h
      cases comps with
      | nil       => exact List.nil_prefix
      | cons c cs =>
        cases h with
        | inl h => exact absurd h (render_ne_dot hp.names)
        | inr h => exact (prefix_iff hp.names hc.names (by simp)).mp h
  case mpr =>
    intro ⟨comps, comps', hp, hc, h⟩
    simp only [pathContains, hp.normalized, hc.normalized, String.toList_ofList,
      rdropWhile_render hp.names, decide_eq_true_eq]
    cases comps with
    | nil      => exact .inl rfl
    | cons _ _ => exact .inr <| (prefix_iff hp.names hc.names (by simp)).mpr h

theorem pathContains_trans {path'' : String} (h : pathContains path path') (h' : pathContains path' path'') :
    pathContains path path'' := by
  have ⟨_, _, hp, hc, h⟩ := pathContains_iff.mp h
  have ⟨_, _, hc', hg, h'⟩ := pathContains_iff.mp h'
  exact pathContains_iff.mpr ⟨_, _, hp, hg, h.trans <| hc.unique hc' ▸ h'⟩

-- Two paths to one place lie on one line.
theorem pathContains_total {place : String} (h : pathContains path place) (h' : pathContains path' place) :
    pathContains path path' ∨ pathContains path' path := by
  have ⟨comps, _, hp, hc, h⟩ := pathContains_iff.mp h
  have ⟨comps', _, hp', hc', h'⟩ := pathContains_iff.mp h'
  rw [hc'.unique hc] at h'
  cases List.prefix_or_prefix_of_prefix h h' with
  | inl h => exact .inl <| pathContains_iff.mpr ⟨_, _, hp, hp', h⟩
  | inr h => exact .inr <| pathContains_iff.mpr ⟨_, _, hp', hp, h⟩

end Path

section Normalized

instance : Std.Total pairLe where
  total a b := by
    unfold pairLe
    cases lt_trichotomy a.fst b.fst with
    | inl h => exact .inl (.inl h)
    | inr h =>
      cases h with
      | inr h => exact .inr (.inl h)
      | inl h =>
        cases le_total a.snd b.snd with
        | inl h' => exact .inl (.inr ⟨h, h'⟩)
        | inr h' => exact .inr (.inr ⟨h.symm, h'⟩)

instance : IsTrans (String × String) pairLe where
  trans a b c h h' := by
    cases h with
    | inl h =>
      cases h' with
      | inl h' => exact .inl (h.trans h')
      | inr h' => exact .inl (h'.left ▸ h)
    | inr h =>
      cases h' with
      | inl h' => exact .inl (h.left ▸ h')
      | inr h' => exact .inr ⟨h.left.trans h'.left, h.right.trans h'.right⟩

variable {keys : List String} {attributes attributes' : Attributes} {scope normalized normalized' : ResourceScope}

structure NormalAttributes (attributes : Attributes) : Prop where
  distinct : (attributes.map (·.fst)).Nodup
  path     : ∀ a ∈ attributes, a.fst = "path" → ∃ path, normalizeRelativePath path = .ok a.snd

theorem normalizeScopeAttributes_ok (h : normalizeScopeAttributes keys attributes = .ok attributes') :
    NormalAttributes attributes' ∧ ∀ a ∈ attributes', a.fst ∉ keys := by
  induction attributes generalizing keys attributes' with
  | nil =>
    cases h
    exact ⟨⟨List.nodup_nil, nofun⟩, nofun⟩
  | cons hd tl hi =>
    obtain ⟨key, value⟩ := hd
    unfold normalizeScopeAttributes at h
    split at h
    case isTrue  => cases h
    case isFalse =>
      split at h
      case isTrue     => cases h
      case isFalse hk =>
        split at h
        case h_1        => cases h
        case h_2 value' hv =>
          have ⟨rest, hr, he⟩ := Except.map_eq_ok_iff.mp h
          subst he
          have ⟨hn, hm⟩ := hi hr
          refine ⟨⟨List.nodup_cons.mpr ⟨fun hc => ?_, hn.distinct⟩, fun a ha hp => ?_⟩, fun a ha => ?_⟩
          · have ⟨a, ha, he⟩ := List.mem_map.mp hc
            exact hm a ha (he ▸ List.mem_cons_self)
          · cases List.mem_cons.mp ha with
            | inr ha => exact hn.path a ha hp
            | inl ha =>
              subst ha
              exact ⟨value, by simpa [show key = "path" from hp] using hv⟩
          · cases List.mem_cons.mp ha with
            | inl ha => exact ha ▸ hk
            | inr ha => exact fun hc => hm a ha (List.mem_cons_of_mem _ hc)

theorem normalizeScopeAttributes_normal (hn : NormalAttributes attributes)
    (h : normalizeScopeAttributes keys attributes = .ok attributes') : attributes' = attributes := by
  induction attributes generalizing keys attributes' with
  | nil => exact (Except.ok.inj h).symm
  | cons hd tl hi =>
    obtain ⟨key, value⟩ := hd
    unfold normalizeScopeAttributes at h
    split at h
    case isTrue  => cases h
    case isFalse =>
      split at h
      case isTrue  => cases h
      case isFalse =>
        split at h
        case h_1        => cases h
        case h_2 value' hv =>
          have ⟨rest, hr, he⟩ := Except.map_eq_ok_iff.mp h
          subst he
          have ht : NormalAttributes tl :=
            ⟨(List.nodup_cons.mp hn.distinct).right, fun a ha => hn.path a (List.mem_cons_of_mem _ ha)⟩
          have hv : value' = value := by
            split at hv
            case isTrue hk =>
              have ⟨_, hp⟩ := hn.path _ List.mem_cons_self hk
              exact normalizeRelativePath_normalized hp hv
            case isFalse => exact (Except.ok.inj hv).symm
          rw [hi ht hr, hv]

structure Normal (scope : ResourceScope) : Prop where
  actions    : scope.actions.image strip = scope.actions
  attributes : NormalAttributes scope.attributes
  sorted     : scope.attributes.Pairwise pairLe

theorem NormalAttributes.sort (h : NormalAttributes attributes) :
    NormalAttributes (attributes.insertionSort pairLe) where
  distinct := ((List.perm_insertionSort pairLe attributes).map _).nodup_iff.mpr h.distinct
  path a ha := h.path a <| (List.mem_insertionSort pairLe).mp ha

theorem normalizeScope_ok (h : normalizeScope scope = .ok normalized) : Normal normalized := by
  unfold normalizeScope at h
  split at h
  case isTrue  => cases h
  case isFalse =>
    split at h
    case isTrue  => cases h
    case isFalse =>
      have ⟨attributes, ha, he⟩ := Except.map_eq_ok_iff.mp h
      subst he
      constructor
      case actions    => simp [Finset.image_image, Function.comp_def, strip_strip]
      case attributes => exact (normalizeScopeAttributes_ok ha).left.sort
      case sorted     => exact List.pairwise_insertionSort _ _

theorem Normal.eq (hn : Normal scope) (h : normalizeScope scope = .ok normalized) : normalized = scope := by
  unfold normalizeScope at h
  split at h
  case isTrue  => cases h
  case isFalse =>
    split at h
    case isTrue  => cases h
    case isFalse =>
      have ⟨attributes, ha, he⟩ := Except.map_eq_ok_iff.mp h
      rw [normalizeScopeAttributes_normal hn.attributes ha, hn.sorted.insertionSort_eq, hn.actions] at he
      exact he.symm

end Normalized
end Authorization
