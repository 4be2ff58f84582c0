import Mathlib.Data.List.Chain
import Mathlib.Data.List.Basic

-- A lexer that cuts a text at its blanks. A quotation mark is special only where a token begins: the token then
-- ends at the next mark of its kind, which need not stand before a blank.
structure Lexer (α : Type*) where
  blank    : α → Bool
  quote    : α → Bool
  disjoint : quote c = true → blank c = false

namespace Lexer

variable {α : Type*} [DecidableEq α] {L : Lexer α} {c q : α} {t cs : List α} {ts : List (List α)}

-- Where the lexer stands, with what it has read of the token it is in.
inductive State (α : Type*)
  | between
  | word (token : List α)
  | quoted (q : α) (token : List α)

-- The tokens from a state on; `none` is a quotation that is never closed.
def tokens (L : Lexer α) : State α → List α → Option (List (List α))
  | .between, []            => some []
  | .between, c :: cs       =>
    if L.blank c then L.tokens .between cs
    else if L.quote c then L.tokens (.quoted c [c]) cs
    else L.tokens (.word [c]) cs
  | .word t, []             => some [t]
  | .word t, c :: cs        =>
    if L.blank c then (t :: ·) <$> L.tokens .between cs else L.tokens (.word (t ++ [c])) cs
  | .quoted _ _, []         => none
  | .quoted q t, c :: cs    =>
    if c = q then ((t ++ [c]) :: ·) <$> L.tokens .between cs else L.tokens (.quoted q (t ++ [c])) cs

def split (L : Lexer α) (cs : List α) : Option (List (List α)) :=
  L.tokens .between cs

-- The text of a token without the quotation marks that surround it.
def unquote (L : Lexer α) (t : List α) : List α :=
  match t with
  | c :: d :: tl => if L.quote c ∧ (d :: tl).getLast? = some c then (d :: tl).dropLast else t
  | t            => t

section Tokens

def Plain (L : Lexer α) (t : List α) : Prop :=
  ∃ c tl, t = c :: tl ∧ L.quote c = false

def Quoted (L : Lexer α) (t : List α) : Prop :=
  ∃ q body, L.quote q = true ∧ t = q :: body ++ [q]

omit [DecidableEq α] in
theorem Quoted.not_plain (h : L.Quoted t) : ¬L.Plain t := by
  intro hp
  obtain ⟨q, body, hq, rfl⟩ := h
  obtain ⟨c, tl, ht, hc⟩ := hp
  injection ht with ht
  rw [ht, hc] at hq
  contradiction

omit [DecidableEq α] in
theorem Plain.append (h : L.Plain t) : L.Plain (t ++ cs) := by
  obtain ⟨c, tl, rfl, hc⟩ := h
  exact ⟨c, tl ++ cs, rfl, hc⟩

theorem unquote_plain (h : L.Plain t) : L.unquote t = t := by
  obtain ⟨c, tl, rfl, hc⟩ := h
  cases tl with
  | nil      => rfl
  | cons _ _ => rw [unquote, if_neg (by simp [hc])]

theorem unquote_quoted {body : List α} (h : L.quote q = true) : L.unquote (q :: body ++ [q]) = body := by
  cases body with
  | nil       => simp [unquote, h]
  | cons d tl =>
    change L.unquote (q :: d :: (tl ++ [q])) = d :: tl
    rw [unquote, if_pos ⟨h, by rw [← List.cons_append, List.getLast?_concat]⟩, ← List.cons_append,
      List.dropLast_concat]

theorem unquote_eq_self_iff (h : L.Plain t ∨ L.Quoted t) : L.unquote t = t ↔ L.Plain t := by
  cases h with
  | inl hp => exact ⟨fun _ => hp, unquote_plain⟩
  | inr hq =>
    refine ⟨fun he => ?_, unquote_plain⟩
    obtain ⟨q, body, hq, rfl⟩ := hq
    rw [unquote_quoted hq] at he
    have hl := congrArg List.length he
    simp at hl
    omega

-- What the lexer has read fits the state it is in.
def State.Fits (L : Lexer α) : State α → Prop
  | .between    => True
  | .word t     => L.Plain t
  | .quoted q t => L.quote q = true ∧ ∃ body, t = q :: body

theorem mem_tokens {s : State α} (hs : s.Fits L) (h : L.tokens s cs = some ts) :
    ∀ t ∈ ts, L.Plain t ∨ L.Quoted t := by
  fun_induction tokens L s cs generalizing ts with
  | case1                  => cases h; simp
  | case2 _ _ _ hi         => exact hi trivial h
  | case3 c _ _ hq hi      => exact hi ⟨hq, [], rfl⟩ h
  | case4 c cs _ hq hi     => exact hi ⟨c, [], rfl, by simpa using hq⟩ h
  | case5 t                => cases h; exact List.forall_mem_singleton.mpr (.inl hs)
  | case6 t c cs _ hi      =>
    obtain ⟨tl, ht, rfl⟩ := Option.map_eq_some_iff.mp h
    exact List.forall_mem_cons.mpr ⟨.inl hs, hi trivial ht⟩
  | case7 _ _ _ _ hi       => exact hi (Plain.append hs) h
  | case8                  => contradiction
  | case9 _ q cs hi        =>
    obtain ⟨tl, ht, rfl⟩ := Option.map_eq_some_iff.mp h
    obtain ⟨hq, body, rfl⟩ := hs
    exact List.forall_mem_cons.mpr ⟨.inr ⟨q, body, hq, rfl⟩, hi trivial ht⟩
  | case10 q t c cs _ hi   =>
    obtain ⟨hq, body, rfl⟩ := hs
    exact hi ⟨hq, body ++ [c], rfl⟩ h

-- A quotation that has been opened ends up among the tokens.
theorem exists_quoted {body : List α} (hq : L.quote q = true) (h : L.tokens (.quoted q (q :: body)) cs = some ts) :
    ∃ t ∈ ts, L.Quoted t := by
  induction cs generalizing body with
  | nil => contradiction
  | cons c cs hi =>
    rw [tokens] at h
    by_cases hc : c = q
    case pos =>
      rw [if_pos hc] at h
      obtain ⟨tl, _, rfl⟩ := Option.map_eq_some_iff.mp h
      exact ⟨_, List.mem_cons_self, q, body, hq, by rw [hc]⟩
    case neg =>
      rw [if_neg hc] at h
      exact hi h

def State.read : State α → List α
  | .between    => []
  | .word t     => t
  | .quoted _ t => t

theorem tokens_subtext {s : State α} (h : L.tokens s cs = some ts) : ∀ t ∈ ts, t <:+: s.read ++ cs := by
  fun_induction tokens L s cs generalizing ts with
  | case1                  => cases h; simp
  | case2 c cs _ hi        => exact fun t ht => (hi h t ht).trans (List.suffix_cons c cs).isInfix
  | case3 _ _ _ _ hi       => exact hi h
  | case4 _ _ _ _ hi       => exact hi h
  | case5 t                =>
    cases h
    exact List.forall_mem_singleton.mpr (List.prefix_append t []).isInfix
  | case6 t c cs _ hi      =>
    obtain ⟨tl, ht, rfl⟩ := Option.map_eq_some_iff.mp h
    refine List.forall_mem_cons.mpr ⟨(List.prefix_append t _).isInfix, fun t' ht' => (hi ht t' ht').trans ?_⟩
    exact ⟨t ++ [c], [], by simp [State.read]⟩
  | case7 t c cs _ hi      =>
    intro t' ht'
    simpa [State.read] using hi h t' ht'
  | case8                  => contradiction
  | case9 t q cs hi        =>
    obtain ⟨tl, ht, rfl⟩ := Option.map_eq_some_iff.mp h
    refine List.forall_mem_cons.mpr ⟨⟨[], cs, by simp [State.read]⟩, fun t' ht' => (hi ht t' ht').trans ?_⟩
    exact ⟨t ++ [q], [], by simp [State.read]⟩
  | case10 q t c cs _ hi   =>
    intro t' ht'
    simpa [State.read] using hi h t' ht'

theorem split_subtext (h : L.split cs = some ts) : ∀ t ∈ ts, t <:+: cs :=
  tokens_subtext (s := .between) h

theorem unquote_subtext : L.unquote t <:+: t := by
  fun_cases unquote L t with
  | case1 c d tl h => exact (List.dropLast_prefix _).isInfix.trans (List.suffix_cons c _).isInfix
  | case2 c d tl h => exact List.infix_rfl
  | case3          => exact List.infix_rfl

end Tokens

section Openings

-- No quotation mark comes right after a blank.
def NoOpening (L : Lexer α) (cs : List α) : Prop :=
  cs.IsChain fun c d => L.blank c = true → L.quote d = false

instance : Decidable (L.NoOpening cs) :=
  inferInstanceAs (Decidable (List.IsChain _ _))

omit [DecidableEq α] in
theorem noOpening_cons {d : α} :
    L.NoOpening (c :: d :: cs) ↔ (L.blank c = true → L.quote d = false) ∧ L.NoOpening (d :: cs) :=
  List.isChain_cons_cons

-- The state of a lexer that has just read this character, in a text without openings so far.
def State.After (L : Lexer α) (c : α) : State α → Prop
  | .between    => L.blank c = true
  | .word t     => L.blank c = false ∧ L.Plain t
  | .quoted _ _ => False

theorem plain_iff_noOpening {s : State α} (hs : s.After L c) (h : L.tokens s cs = some ts) :
    (∀ t ∈ ts, L.Plain t) ↔ L.NoOpening (c :: cs) := by
  induction cs generalizing s c ts with
  | nil =>
    cases s with
    | between    => cases h; simp [NoOpening]
    | word t     => cases h; simpa [NoOpening] using hs.right
    | quoted _ _ => exact hs.elim
  | cons d cs hi =>
    rw [noOpening_cons]
    cases s with
    | quoted _ _ => exact hs.elim
    | between    =>
      rw [tokens] at h
      by_cases hb : L.blank d
      case pos =>
        rw [if_pos hb] at h
        have hd : L.quote d = false := by
          by_contra hq
          rw [L.disjoint (by simpa using hq)] at hb
          contradiction
        rw [hi (s := .between) hb h, and_iff_right fun _ => hd]
      case neg =>
        rw [if_neg hb] at h
        by_cases hq : L.quote d
        case pos =>
          rw [if_pos hq] at h
          obtain ⟨t, ht, hqt⟩ := exists_quoted hq h
          refine iff_of_false (fun ha => hqt.not_plain (ha t ht)) fun ha => ?_
          rw [ha.left hs] at hq
          contradiction
        case neg =>
          rw [if_neg hq] at h
          have hq : L.quote d = false := by simpa using hq
          rw [hi (s := .word [d]) ⟨by simpa using hb, d, [], rfl, hq⟩ h, and_iff_right fun _ => hq]
    | word t     =>
      have hc : L.blank c = true → L.quote d = false := fun hb => by
        rw [hs.left] at hb
        contradiction
      rw [tokens] at h
      rw [and_iff_right hc]
      by_cases hb : L.blank d
      case pos =>
        rw [if_pos hb] at h
        obtain ⟨tl, ht, rfl⟩ := Option.map_eq_some_iff.mp h
        rw [List.forall_mem_cons, and_iff_right hs.right, hi (s := .between) hb ht]
      case neg =>
        rw [if_neg hb] at h
        exact hi (s := .word _) ⟨by simpa using hb, hs.right.append⟩ h

-- The marks around the tokens are all there is to take off, and none is there exactly when the text opens no
-- quotation.
theorem map_unquote_iff (hc : L.blank c = true) (h : L.split cs = some ts) :
    ts.map L.unquote = ts ↔ L.NoOpening (c :: cs) := by
  rw [← plain_iff_noOpening (s := .between) hc h]
  have hm := mem_tokens (s := .between) trivial h
  constructor
  · intro he t ht
    have hu : ∀ t ∈ ts, L.unquote t = t := fun t ht => List.map_inj_left.mp (he.trans ts.map_id.symm) t ht
    exact (unquote_eq_self_iff (hm t ht)).mp (hu t ht)
  · intro hp
    exact (List.map_inj_left.mpr fun t ht => unquote_plain (hp t ht)).trans ts.map_id

end Openings
end Lexer
