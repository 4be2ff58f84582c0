import Mathlib.Data.List.Nodup
import BridleModel.Container.ActiveSlot

namespace Container.ActiveSlot

variable {γ : Type}

section Attempts

variable {d d' : Option (Listing γ)} {turn : Turn γ} {action : Option (Listing γ) → List (Op γ)}
         {ops : List (Op γ)} {faults : Nat → Option (Fault γ)} {e : Problem}

def completes (ops : List (Op γ)) (d : Option (Listing γ)) : Except Problem (Option (Listing γ)) :=
  ops.foldlM (fun d op => op.apply d) d

theorem completes_append {ops' : List (Op γ)} :
    completes (ops ++ ops') d = .ok d' ↔ ∃ d₁, completes ops d = .ok d₁ ∧ completes ops' d₁ = .ok d' := by
  rw [completes, List.foldlM_append]
  exact Except.bind_eq_ok_iff

theorem completes_cons {op : Op γ} :
    completes (op :: ops) d = .ok d' ↔ ∃ d₁, op.apply d = .ok d₁ ∧ completes ops d₁ = .ok d' := by
  rw [completes, List.foldlM_cons]
  exact Except.bind_eq_ok_iff

def calm : Turn γ :=
  ⟨none, fun _ => none, none, fun _ => none⟩

theorem runMountRootAccess_calm (h : completes (action d) d = .ok d') :
    runMountRootAccess calm action d = (d', none) := by
  have ha : attempt (action d) (fun _ => none) d = (d', none) := Effect.run_faultless h
  simp [runMountRootAccess, calm, ha]

theorem access_calm {n : Subdir} (h : completes (action d) d = .ok d') : access n calm action d = (d', none) := by
  rw [access]
  split
  case isTrue  => exact runMountRootAccess_calm h
  case isFalse => exact Effect.run_faultless h

-- The attempt that makes the access return
theorem returns_of_runMountRootAccess (h : runMountRootAccess turn action d = (d', none)) :
    completes (action d) d = .ok d' ∨
    ∃ d₁ e, attempt (action d) turn.first d = (d₁, some e) ∧ completes (action d₁) d₁ = .ok d' := by
  rw [runMountRootAccess] at h
  cases ht : turn.access with
  | some e => simp [ht] at h
  | none   =>
    simp only [ht] at h
    split at h
    case h_1 d₁ ha =>
      cases hg : turn.again with
      | some e => simp [hg] at h
      | none   =>
        simp only [hg, Prod.mk.injEq, Option.map_eq_none_iff] at h
        exact .inr ⟨d₁, _, ha, Effect.run_returns (Prod.ext h.1 h.2)⟩
    case h_2 => exact .inl (Effect.run_returns h)

theorem returns_of_access {n : Subdir} (h : access n turn action d = (d', none)) :
    ∃ d₁, completes (action d₁) d₁ = .ok d' := by
  rw [access] at h
  split at h
  case isTrue  =>
    cases returns_of_runMountRootAccess h with
    | inl h => exact ⟨d, h⟩
    | inr h =>
      obtain ⟨d₁, _, _, h⟩ := h
      exact ⟨d₁, h⟩
  case isFalse => exact ⟨d, Effect.run_returns (Effect.raiseFirst_returns_iff.mp h).2⟩

end Attempts

section Copies

variable {l acc src : Listing γ} {d d' : Option (Listing γ)} {ops : List (Op γ)} {a : List String × Entry γ} {e : Problem}

def Copyable (src : Listing γ) : Prop :=
  ∀ a ∈ src, a.snd ≠ .special

-- What a copy leaves out
def Entry.Skipped (x : Entry γ) : Prop :=
  x = .link ∨ ∃ inside, x = .closed inside

theorem refuse_not_completes (h : .refuse e ∈ ops) : completes ops d ≠ .ok d' := by
  intro hc
  induction ops generalizing d with
  | nil            => cases h
  | cons op ops hi =>
    obtain ⟨d₁, h₁, h₂⟩ := completes_cons.mp hc
    cases List.mem_cons.mp h with
    | inl h =>
      rw [← h] at h₁
      cases h₁
    | inr h => exact hi h h₂

theorem without_eq_self {path : List String} (h : path ∉ l.map (·.fst)) : without path l = l :=
  List.filter_eq_self.mpr fun _ ha => decide_eq_true fun he => h (List.mem_map.mpr ⟨_, ha, he⟩)

variable (acc) in
theorem completes_copies (nodup : (l.map (·.fst)).Nodup) (disjoint : ∀ path ∈ l.map (·.fst), path ∉ acc.map (·.fst))
    (copyable : Copyable l) :
    ∃ acc', completes (l.flatMap copying.copy) (some acc) = .ok (some acc') ∧
      ∀ a, a ∈ acc' ↔ a ∈ acc ∨ a ∈ l ∧ ¬a.snd.Skipped := by
  induction l generalizing acc with
  | nil           => exact ⟨acc, rfl, by simp⟩
  | cons a₀ l ih =>
    have hn : a₀.fst ∉ acc.map (·.fst) := disjoint _ List.mem_cons_self
    rw [List.map_cons, List.nodup_cons] at nodup
    have hc : Copyable l := fun a ha => copyable a (List.mem_cons_of_mem _ ha)
    -- the entry as it is added
    have added : ∀ {op : Op γ} {x}, copying.copy a₀ = [op] → a₀ = (a₀.fst, x) → ¬ x.Skipped →
        op.apply (some acc) = .ok (some ((a₀.fst, x) :: acc)) →
        ∃ acc', completes ((a₀ :: l).flatMap copying.copy) (some acc) = .ok (some acc') ∧
          ∀ a, a ∈ acc' ↔ a ∈ acc ∨ a ∈ a₀ :: l ∧ ¬a.snd.Skipped := by
      intro op x ho ha hx happ
      have hd : ∀ path ∈ l.map (·.fst), path ∉ ((a₀.fst, x) :: acc).map (·.fst) := by
        intro path hp hq
        cases List.mem_cons.mp hq with
        | inl hq =>
          have he : path = a₀.fst := hq
          exact nodup.1 (he ▸ hp)
        | inr hq => exact disjoint _ (List.mem_cons_of_mem _ hp) hq
      obtain ⟨acc', h₁, h₂⟩ := ih _ nodup.2 hd hc
      refine ⟨acc', ?_, fun a => ?_⟩
      · rw [List.flatMap_cons, ho]
        exact completes_cons.mpr ⟨_, happ, h₁⟩
      · rw [h₂, List.mem_cons, List.mem_cons, ← ha]
        constructor
        · rintro ((rfl | h) | h)
          · exact .inr ⟨.inl rfl, by rw [ha]; exact hx⟩
          · exact .inl h
          · exact .inr ⟨.inr h.1, h.2⟩
        · rintro (h | ⟨rfl | h, hs⟩)
          · exact .inl (.inr h)
          · exact .inl (.inl rfl)
          · exact .inr ⟨h, hs⟩
    -- the entry as it is passed over
    have passed : copying.copy a₀ = [] → a₀.snd.Skipped →
        ∃ acc', completes ((a₀ :: l).flatMap copying.copy) (some acc) = .ok (some acc') ∧
          ∀ a, a ∈ acc' ↔ a ∈ acc ∨ a ∈ a₀ :: l ∧ ¬a.snd.Skipped := by
      intro ho hs
      obtain ⟨acc', h₁, h₂⟩ := ih _ nodup.2 (fun path hp => disjoint _ (List.mem_cons_of_mem _ hp)) hc
      refine ⟨acc', by rw [List.flatMap_cons, ho]; exact h₁, fun a => ?_⟩
      rw [h₂, List.mem_cons]
      constructor
      · rintro (h | h)
        · exact .inl h
        · exact .inr ⟨.inr h.1, h.2⟩
      · rintro (h | ⟨rfl | h, hv⟩)
        · exact .inl h
        · exact absurd hs hv
        · exact .inr ⟨h, hv⟩
    obtain ⟨path, x⟩ := a₀
    cases x with
    | file content => exact added rfl rfl (by simp [Entry.Skipped]) (by simp [Op.apply, without_eq_self hn])
    | special      => exact absurd rfl (copyable _ List.mem_cons_self)
    | link         => exact passed rfl (.inl rfl)
    | folder       =>
      refine added rfl rfl (by simp [Entry.Skipped]) ?_
      rw [Op.apply, Option.map_some, if_neg hn]
    | closed inside => exact passed rfl (.inr ⟨inside, rfl⟩)

theorem mem_copying_special (h : ¬Copyable src) : .refuse .other ∈ copying src := by
  have ⟨a, ha, hs⟩ : ∃ a ∈ src, a.snd = .special := by simpa [Copyable] using h
  refine List.mem_cons_of_mem _ (List.mem_flatMap.mpr ⟨a, List.mem_reverse.mpr ha, ?_⟩)
  rw [copying.copy, hs]
  exact List.mem_singleton_self _

theorem Copyable.reverse (h : Copyable src) : Copyable src.reverse :=
  fun a ha => h a (List.mem_reverse.mp ha)

theorem Directory.nodup (src : Directory γ) : (src.entries.map (·.fst)).Nodup :=
  List.pairwise_map.mpr (src.walk.imp fun h he => h (by rw [he]))

theorem Directory.nodup_reverse (src : Directory γ) : (src.entries.reverse.map (·.fst)).Nodup := by
  rw [List.map_reverse]
  exact List.nodup_reverse.mpr src.nodup

-- A copy into a place where nothing is
variable (d) in
theorem completes_copying {src : Directory γ} (h : Copyable src.entries) (hd : d.getD [] = []) :
    ∃ l, completes (copying src.entries) d = .ok (some l) ∧
      ∀ a, a ∈ l ↔ a ∈ src.entries ∧ ¬a.snd.Skipped := by
  have ⟨l, hc, hm⟩ := completes_copies [] src.nodup_reverse (fun _ _ h => by cases h) h.reverse
  refine ⟨l, completes_cons.mpr ⟨_, rfl, by rw [hd]; exact hc⟩, fun a => ?_⟩
  simpa using hm a

theorem copyable_of_completes (h : completes (copying src) d = .ok d') : Copyable src := by
  by_contra hc
  exact refuse_not_completes (mem_copying_special hc) h

end Copies

section Removals

variable {l m src : Listing γ} {d d' : Option (Listing γ)} {a b : List String × Entry γ} {e : Problem}
         {faults : Nat → Option (Fault γ)} {rest : List (Op γ)}

-- `safe_rmtree` gets through unless it meets a link or a directory that can't be listed.
def Clearable (d : Option (Listing γ)) : Prop :=
  ∀ a ∈ d.getD [], ¬a.snd.Skipped

theorem without_sublist {path : List String} : (without path l).Sublist l :=
  List.filter_sublist

theorem mem_without {path : List String} : a ∈ without path l ↔ a ∈ l ∧ a.fst ≠ path := by
  simp [without]

-- One turn of the loops of `safe_rmtree` passes over the entry, raises or removes it.
theorem remove_cases (a : List String × Entry γ) : removal.remove a = [] ∨
    ∃ op, removal.remove a = [op] ∧ (∀ t d, op.fails t d = (d, t.problem)) ∧
      ∀ m, (∃ e, op.apply (some m) = .error e) ∨ ¬a.snd.Skipped ∧ op.apply (some m) = .ok (some (without a.fst m)) := by
  obtain ⟨path, x⟩ := a
  cases x with
  | file content  => exact .inr ⟨_, rfl, fun _ _ => rfl, fun _ => .inr ⟨by simp [Entry.Skipped], rfl⟩⟩
  | special       => exact .inr ⟨_, rfl, fun _ _ => rfl, fun _ => .inr ⟨by simp [Entry.Skipped], rfl⟩⟩
  | link          => exact .inr ⟨_, rfl, fun _ _ => rfl, fun _ => .inl ⟨_, rfl⟩⟩
  | closed inside => exact .inl rfl
  | folder        =>
    refine .inr ⟨_, rfl, fun _ _ => rfl, fun m => ?_⟩
    by_cases hc : ∃ a ∈ m, path <+: a.fst ∧ a.fst ≠ path
    case pos => exact .inl ⟨_, if_pos hc⟩
    case neg => exact .inr ⟨by simp [Entry.Skipped], if_neg hc⟩

-- What is left of a tree while it is removed, with an entry that stays
def Remains (l : Listing γ) (b : List String × Entry γ) (d : Option (Listing γ)) : Prop :=
  ∃ m, d = some m ∧ m.Sublist l ∧ b ∈ m

variable (rest faults) in
theorem attempt_remains (nodup : (l.map (·.fst)).Nodup) (hb : b ∈ l) (hs : b.snd.Skipped) {l' : Listing γ}
    (hl : ∀ a ∈ l', a ∈ l) (h : Remains l b d) :
    ∃ d' e, attempt (l'.flatMap removal.remove ++ .rmtree :: rest) faults d = (d', some e) ∧ Remains l b d' := by
  induction l' generalizing d faults with
  | nil          =>
    rw [List.flatMap_nil, List.nil_append, attempt, Effect.run]
    cases hf : faults 0 with
    | some t => exact ⟨_, _, rfl, h⟩
    | none   =>
      obtain ⟨m, rfl, hm, hbm⟩ := h
      have hne : m.isEmpty = false := List.isEmpty_eq_false_iff.mpr (List.ne_nil_of_mem hbm)
      refine ⟨some m, .permission, ?_, m, rfl, hm, hbm⟩
      simp [Op.apply, hne]
  | cons a l' ih =>
    have hl' : ∀ a ∈ l', a ∈ l := fun a ha => hl a (List.mem_cons_of_mem _ ha)
    rw [List.flatMap_cons]
    cases remove_cases a with
    | inl ho =>
      rw [ho]
      exact ih _ hl' h
    | inr ho =>
      obtain ⟨op, ho, hfail, happ⟩ := ho
      rw [ho, List.append_assoc, List.singleton_append, attempt, Effect.run]
      cases hf : faults 0 with
      | some t => exact ⟨d, t.problem, by simp [hfail], h⟩
      | none   =>
        obtain ⟨m, rfl, hm, hbm⟩ := h
        cases happ m with
        | inl he =>
          obtain ⟨e, he⟩ := he
          exact ⟨some m, e, by simp [he], m, rfl, hm, hbm⟩
        | inr hn =>
          -- what is removed lies elsewhere
          have apart : b.fst ≠ a.fst := fun he =>
            hn.1 (List.inj_on_of_nodup_map nodup hb (hl a List.mem_cons_self) he ▸ hs)
          have hw : Remains l b (some (without a.fst m)) :=
            ⟨_, rfl, without_sublist.trans hm, mem_without.mpr ⟨hbm, apart⟩⟩
          simp only [hn.2]
          exact ih _ hl' hw

theorem clearable_of_sublist (hs : m.Sublist l) (h : Clearable (some l)) : Clearable (some m) :=
  fun a ha => h a (hs.subset ha)

-- The bottom-up walk meets a folder when nothing below it is left.
theorem completes_remove (walk : l.Pairwise fun a b => ¬a.fst <+: b.fst) (h : Clearable (some l)) :
    completes (l.flatMap removal.remove) (some l) = .ok (some []) := by
  induction l with
  | nil         => rfl
  | cons a l ih =>
    obtain ⟨ha, hw⟩ := List.pairwise_cons.mp walk
    have hn : ¬a.snd.Skipped := h a List.mem_cons_self
    have hl : without a.fst (a :: l) = l := by
      rw [without, List.filter_cons_of_neg (by simp)]
      exact without_eq_self fun hm => by
        obtain ⟨b, hb, he⟩ := List.mem_map.mp hm
        exact ha b hb (he ▸ List.prefix_rfl)
    have hrest := ih hw fun b hb => h b (List.mem_cons_of_mem _ hb)
    rw [List.flatMap_cons]
    obtain ⟨path, x⟩ := a
    cases x with
    | file content  => exact completes_cons.mpr ⟨_, congrArg (Except.ok ∘ some) hl, hrest⟩
    | special       => exact completes_cons.mpr ⟨_, congrArg (Except.ok ∘ some) hl, hrest⟩
    | link          => exact absurd (.inl rfl) hn
    | closed inside => exact absurd (.inr ⟨_, rfl⟩) hn
    | folder        =>
      have hc : ¬∃ b ∈ (path, Entry.folder) :: l, path <+: b.fst ∧ b.fst ≠ path := by
        rintro ⟨b, hb, hp, hne⟩
        cases List.mem_cons.mp hb with
        | inl hb => exact hne (congrArg Prod.fst hb)
        | inr hb => exact ha b hb hp
      exact completes_cons.mpr ⟨_, (if_neg hc).trans (congrArg (Except.ok ∘ some) hl), hrest⟩

theorem completes_removal {dst : Option (Directory γ)} (h : Clearable (dst.map (·.entries))) :
    completes (removal (dst.map (·.entries))) (dst.map (·.entries)) = .ok none := by
  cases dst with
  | none   => rfl
  | some l => exact completes_append.mpr ⟨_, completes_remove l.walk h, rfl⟩

theorem removal_completes (h : completes (removal d) d = .ok d') : d' = none := by
  cases d with
  | none   => exact (Except.ok.inj h).symm
  | some l =>
    obtain ⟨d₁, _, h⟩ := completes_append.mp h
    obtain ⟨d₂, h, h₂⟩ := completes_cons.mp h
    rw [Op.apply] at h
    split at h
    case isTrue  => exact (Except.ok.inj h₂).symm.trans (Except.ok.inj h).symm
    case isFalse => cases h

end Removals

section Turns

variable {src left : Directory γ} {dst : Option (Directory γ)} {d d' : Option (Listing γ)} {turn : Turn γ}

-- One directory of the candidate after its turn
def Copied (src : Directory γ) (d : Option (Listing γ)) : Prop :=
  ∃ l, d = some l ∧ ∀ a, a ∈ l ↔ a ∈ src.entries ∧ ¬a.snd.Skipped

theorem copied_of_completes (h : completes (collecting src.entries d) d = .ok d') :
    Copyable src.entries ∧ Copied src d' := by
  obtain ⟨d₁, h₁, h₂⟩ := completes_append.mp h
  have hc := copyable_of_completes h₂
  rw [removal_completes h₁] at h₂
  obtain ⟨l, hl, hm⟩ := completes_copying none hc rfl
  exact ⟨hc, l, Except.ok.inj (h₂.symm.trans hl), hm⟩

theorem copied_of_returns (h : runMountRootAccess turn (collecting src.entries) d = (d', none)) :
    Copyable src.entries ∧ Copied src d' := by
  cases returns_of_runMountRootAccess h with
  | inl h => exact copied_of_completes h
  | inr h =>
    obtain ⟨_, _, _, h⟩ := h
    exact copied_of_completes h

-- No attempt gets past an entry that can't be removed.
theorem clearable_of_returns {src : Listing γ}
    (h : runMountRootAccess turn (collecting src) (dst.map (·.entries)) = (d', none)) :
    Clearable (dst.map (·.entries)) := by
  cases dst with
  | none   => exact fun a ha => by cases ha
  | some l =>
    intro b hb hs
    have stuck : ∀ {m : Listing γ} {faults d₁}, m.Sublist l.entries → b ∈ m →
        attempt (collecting src (some m)) faults (some m) ≠ (d₁, none) := by
      intro m faults d₁ hm hbm ha
      have hn : (m.map (·.fst)).Nodup := (hm.map _).nodup l.nodup
      obtain ⟨_, _, he, _⟩ := attempt_remains faults (copying src) hn hbm hs (fun _ ha => ha)
        ⟨m, rfl, List.Sublist.refl m, hbm⟩
      rw [collecting, removal, List.append_assoc, List.singleton_append, he] at ha
      cases ha
    cases returns_of_runMountRootAccess h with
    | inl h => exact stuck (List.Sublist.refl _) hb (Effect.run_faultless h)
    | inr h =>
      obtain ⟨d₁, e, ha, h⟩ := h
      obtain ⟨d₂, _, he, m, rfl, hm, hbm⟩ := attempt_remains turn.first (copying src) l.nodup hb hs
        (fun _ ha => ha) ⟨l.entries, rfl, List.Sublist.refl _, hb⟩
      rw [Option.map_some, collecting, removal, List.append_assoc, List.singleton_append, he] at ha
      obtain rfl : some m = d₁ := (Prod.mk.inj ha).1
      exact stuck hm hbm (Effect.run_faultless h)

theorem returns_of_clearable (hd : Clearable (dst.map (·.entries))) (hc : Copyable src.entries) :
    ∃ d', runMountRootAccess calm (collecting src.entries) (dst.map (·.entries)) = (d', none) := by
  obtain ⟨l, hl, _⟩ := completes_copying none hc rfl
  exact ⟨some l, runMountRootAccess_calm (completes_append.mpr ⟨none, completes_removal hd, hl⟩)⟩

def SameFiles (d : Option (Listing γ)) (src : Listing γ) : Prop :=
  ∀ f, f ∈ Listing.files (d.getD []) ↔ f ∈ Listing.files src

-- No directory that can't be listed holds a regular file.
def Readable (src : Listing γ) : Prop :=
  ∀ a ∈ src, a.snd.inside = []

theorem mem_filesOf {a : List String × Entry γ} {f : List String × γ} :
    f ∈ filesOf a ↔ a.snd = .file f.snd ∧ a.fst = f.fst ∨ f ∈ a.snd.inside := by
  obtain ⟨path, x⟩ := a
  obtain ⟨path', content⟩ := f
  cases x with
  | file _   => simp [filesOf, Entry.inside, and_comm, eq_comm]
  | special  => simp [filesOf, Entry.inside]
  | link     => simp [filesOf, Entry.inside]
  | folder   => simp [filesOf, Entry.inside]
  | closed _ => simp [filesOf, Entry.inside]

theorem Entry.inside_eq_nil {x : Entry γ} (h : ¬x.Skipped) : x.inside = [] := by
  cases x with
  | closed inside => exact absurd (.inr ⟨inside, rfl⟩) h
  | _             => rfl

-- What a closed directory holds isn't listed.
theorem Directory.not_mem_of_inside {a b : List String × Entry γ} {f : List String × γ} (ha : a ∈ src.entries)
    (hf : f ∈ a.snd.inside) (hb : b ∈ src.entries) : b.fst ≠ f.fst := by
  intro he
  obtain ⟨hp, hne⟩ := src.hidden a ha f hf
  have hr := (src.rooted b hb).2 a.fst ((List.mem_inits _ _).mpr (he ▸ hp)) (src.rooted a ha).1 (he ▸ hne)
  have := List.inj_on_of_nodup_map src.nodup ha hr rfl
  rw [this] at hf
  cases hf

theorem Copied.sameFiles_iff (h : Copied src d) : SameFiles d src.entries ↔ Readable src.entries := by
  obtain ⟨l, rfl, hm⟩ := h
  constructor
  · intro hs a ha
    refine List.eq_nil_iff_forall_not_mem.mpr fun f hf => ?_
    have hf' : f ∈ Listing.files src.entries := List.mem_flatMap.mpr ⟨a, ha, mem_filesOf.mpr (.inr hf)⟩
    obtain ⟨b, hb, hfb⟩ := List.mem_flatMap.mp ((hs f).mpr hf')
    have hbs := (hm b).mp hb
    cases mem_filesOf.mp hfb with
    | inl hfb => exact src.not_mem_of_inside ha hf hbs.1 hfb.2
    | inr hfb =>
      rw [Entry.inside_eq_nil hbs.2] at hfb
      cases hfb
  · intro hr f
    rw [Listing.files, Listing.files, List.mem_flatMap, List.mem_flatMap, Option.getD_some]
    constructor
    · rintro ⟨a, ha, hf⟩
      exact ⟨a, ((hm a).mp ha).1, hf⟩
    · rintro ⟨a, ha, hf⟩
      refine ⟨a, (hm a).mpr ⟨ha, ?_⟩, hf⟩
      cases mem_filesOf.mp hf with
      | inl hf => rw [hf.1]; simp [Entry.Skipped]
      | inr hf => rw [hr a ha] at hf; cases hf

end Turns

section Failures

variable {src : Listing γ} {d d' : Option (Listing γ)} {turn : Turn γ} {action : Option (Listing γ) → List (Op γ)}
         {faults : Nat → Option (Fault γ)} {e : Problem}

-- The first thing that `safe_rmtree` meets can't be removed.
def Stuck (d : Option (Listing γ)) : Prop :=
  ∃ op ops e, removal d = op :: ops ∧ op.apply d = .error e

theorem unchanged_of_raises (h : ∀ {faults d' e}, attempt (action d) faults d = (d', some e) → d' = d)
    (hr : runMountRootAccess turn action d = (d', some e)) : d' = d := by
  rw [runMountRootAccess] at hr
  cases ht : turn.access with
  | some e => exact (Prod.mk.inj (by simpa [ht] using hr)).1.symm
  | none   =>
    simp only [ht] at hr
    split at hr
    case h_2 => exact h hr
    case h_1 d₁ ha =>
      obtain rfl := h ha
      cases hg : turn.again with
      | some e =>
        simp only [hg] at hr
        exact (Prod.mk.inj hr).1.symm
      | none   =>
        simp only [hg, Prod.mk.injEq, Option.map_eq_some_iff] at hr
        obtain ⟨hd, e', he, _⟩ := hr
        exact h (Prod.ext hd he)

theorem removal_fails {op : Op γ} {t : Fault γ} (h : op ∈ removal d) : op.fails t d' = (d', t.problem) := by
  cases d with
  | none   => cases h
  | some l =>
    cases List.mem_append.mp h with
    | inr h =>
      obtain rfl := List.mem_singleton.mp h
      rfl
    | inl h =>
      obtain ⟨a, _, h⟩ := List.mem_flatMap.mp h
      cases remove_cases a with
      | inl ho =>
        rw [ho] at h
        cases h
      | inr ho =>
        obtain ⟨op', ho, hf, _⟩ := ho
        rw [ho] at h
        obtain rfl := List.mem_singleton.mp h
        exact hf t d'

theorem attempt_stuck (h : Stuck d) (ha : attempt (collecting src d) faults d = (d', some e)) : d' = d := by
  obtain ⟨op, ops, e, ho, he⟩ := h
  have hf : ∀ t, op.fails t d = (d, t.problem) := fun t => removal_fails (by rw [ho]; exact List.mem_cons_self)
  rw [collecting, ho, List.cons_append, attempt, Effect.run_cons, he] at ha
  cases hc : faults 0 with
  | some t =>
    simp only [hc, hf] at ha
    exact (Prod.mk.inj ha).1.symm
  | none   =>
    simp only [hc] at ha
    exact (Prod.mk.inj ha).1.symm

theorem copies_skipped (h : ∀ a ∈ src, a.snd.Skipped) : src.reverse.flatMap copying.copy = [] := by
  refine List.flatMap_eq_nil_iff.mpr fun a ha => ?_
  cases h a (List.mem_reverse.mp ha) with
  | inl h => rw [copying.copy, h]
  | inr h =>
    obtain ⟨_, h⟩ := h
    rw [copying.copy, h]

theorem attempt_nothing (h : ∀ a ∈ src, a.snd.Skipped) (ha : attempt (collecting src none) faults none = (d', some e)) :
    d' = none := by
  rw [collecting, removal, List.nil_append, copying, copies_skipped h, attempt, Effect.run_cons] at ha
  cases hc : faults 0 with
  | some t =>
    simp only [hc] at ha
    exact (Prod.mk.inj ha).1.symm
  | none   => simp [hc, Op.apply, Effect.run, Effect.done] at ha

-- The environment lets the second call of the operating system fail.
def secondFails : Turn γ :=
  { calm with first := fun n => if n = 1 then some ⟨.other, none⟩ else none }

theorem Op.fails_none {op : Op γ} {d : Option (Listing γ)} : op.fails ⟨.other, none⟩ d = (d, .other) := by
  cases op <;> rfl

theorem runMountRootAccess_secondFails {op op' : Op γ} {ops : List (Op γ)} (h : action d = op :: op' :: ops)
    (ha : op.apply d = .ok d') : runMountRootAccess secondFails action d = (d', some .other) := by
  have hr : attempt (action d) secondFails.first d = (d', some .other) := by
    rw [h, attempt]
    refine (Effect.run_second ha).trans ?_
    rw [Op.fails_none]
  rw [runMountRootAccess]
  simp [secondFails, calm] at hr ⊢
  simp [hr]

theorem apply_first_ne {l : Listing γ} {op : Op γ} (h : op ∈ removal (some l)) (ha : op.apply (some l) = .ok d') :
    d' ≠ some l := by
  rintro rfl
  cases List.mem_append.mp h with
  | inr h =>
    obtain rfl := List.mem_singleton.mp h
    rw [Op.apply] at ha
    split at ha
    case isTrue  => cases ha
    case isFalse => cases ha
  | inl h =>
    obtain ⟨a, hm, h⟩ := List.mem_flatMap.mp h
    cases remove_cases a with
    | inl ho =>
      rw [ho] at h
      cases h
    | inr ho =>
      obtain ⟨op', ho, _, happ⟩ := ho
      rw [ho] at h
      obtain rfl := List.mem_singleton.mp h
      cases happ l with
      | inl he =>
        obtain ⟨_, he⟩ := he
        rw [he] at ha
        cases ha
      | inr hn =>
        have hl : without a.fst l = l := Option.some.inj (Except.ok.inj (hn.2.symm.trans ha))
        exact (mem_without.mp (hl ▸ hm)).2 rfl

theorem exists_changed (hs : ¬Stuck d) (hn : ¬(d = none ∧ ∀ a ∈ src, a.snd.Skipped)) :
    ∃ d', runMountRootAccess secondFails (collecting src) d = (d', some .other) ∧ d' ≠ d := by
  cases d with
  | none   =>
    cases hc : src.reverse.flatMap copying.copy with
    | cons op ops =>
      exact ⟨some [], runMountRootAccess_secondFails (by rw [collecting, removal, copying, hc]; rfl) rfl, by simp⟩
    | nil         =>
      refine absurd ⟨rfl, fun a ha => ?_⟩ hn
      have he := List.flatMap_eq_nil_iff.mp hc a (List.mem_reverse.mpr ha)
      obtain ⟨path, x⟩ := a
      cases x with
      | link          => exact .inl rfl
      | closed inside => exact .inr ⟨inside, rfl⟩
      | file _        => cases he
      | special       => cases he
      | folder        => cases he
  | some l =>
    cases hr : removal (some l) with
    | nil         => exact absurd hr (by simp [removal])
    | cons op ops =>
      cases ha : op.apply (some l) with
      | error e => exact absurd ⟨op, ops, e, hr, ha⟩ hs
      | ok d'   =>
        have hne := apply_first_ne (by rw [hr]; exact List.mem_cons_self) ha
        cases ops with
        | nil           => exact ⟨d', runMountRootAccess_secondFails (by rw [collecting, hr]; rfl) ha, hne⟩
        | cons op' ops' => exact ⟨d', runMountRootAccess_secondFails (by rw [collecting, hr]; rfl) ha, hne⟩

end Failures

section Preparation

variable {c : Subdir → Option (Directory γ)} {before : Subdir → Option (Listing γ)} {p : Preparing γ}
         {s s' : Staging γ} {e : Problem}

def trees (c : Subdir → Option (Directory γ)) : Subdir → Option (Listing γ) :=
  fun n => (c n).map (·.entries)

theorem candidate_prepareActiveSlot : (prepareActiveSlot p s).fst.candidate = s.candidate := by
  let P : Staging γ → Prop := fun s' => s'.candidate = s.candidate
  refine Effect.raiseFirst_preserves (P := P) rfl (Effect.seq_preserves (P := P) rfl fun h => ?_)
  refine Effect.raiseFirst_preserves (P := P) h (Effect.seq_preserves (P := P) ?_ fun h => ?_)
  · exact Effect.inTurn_preserves (P := P) (fun h => h) h
  · refine Effect.seq_preserves (P := P) ?_ fun h => ?_
    · exact Effect.inTurn_preserves (P := P) (fun h => h) h
    · exact Effect.raiseFirst_preserves (P := P) h h

-- No special file in a directory that is copied into the slot
def Preparable (c : Subdir → Option (Directory γ)) : Prop :=
  ∀ n src, c n = some src → Copyable src.entries

theorem preparable_of_returns (h : prepareActiveSlot p ⟨trees c, before⟩ = (s, none)) : Preparable c := by
  intro n src hc
  obtain ⟨_, h⟩ := Effect.raiseFirst_returns_iff.mp h
  obtain ⟨s₁, h₁, h⟩ := Effect.seq_returns_iff.mp h
  obtain ⟨_, h⟩ := Effect.raiseFirst_returns_iff.mp h
  obtain ⟨s₂, h₂, h⟩ := Effect.seq_returns_iff.mp h
  obtain ⟨s₃, h₃, _⟩ := Effect.seq_returns_iff.mp h
  have hs₁ : s₁.candidate = trees c := congrArg Staging.candidate (Prod.mk.inj h₁).1.symm
  have hs₂ : s₂.candidate = trees c := by
    have hp : (Effect.inTurn _ slotSubdirs s₁).fst.candidate = trees c :=
      Effect.inTurn_preserves (P := fun s => s.candidate = trees c)
        (f := fun n => onSlot n (runMountRootAccess (p.clear n) clearing)) (fun h => h) hs₁
    rwa [h₂] at hp
  obtain ⟨s₄, s₅, hs₄, h⟩ := Effect.inTurn_returns (P := fun s => s.candidate = trees c) (fun h => h) hs₂ h₃
    (by cases n <;> decide : n ∈ slotSubdirs)
  have ha : access n (p.populate n) (populating (s₄.candidate n)) (s₄.slot n) =
      ((access n (p.populate n) (populating (s₄.candidate n)) (s₄.slot n)).fst, none) :=
    Prod.ext rfl (Prod.mk.inj h).2
  obtain ⟨d, hd⟩ := returns_of_access ha
  rw [hs₄, trees, hc] at hd
  exact copyable_of_completes hd

def calmly : Preparing γ :=
  ⟨none, none, fun _ => calm, fun _ => calm, none⟩

theorem completes_copies_any {l : Listing γ} (acc : Listing γ) (h : Copyable l) :
    ∃ acc', completes (l.flatMap copying.copy) (some acc) = .ok (some acc') := by
  induction l generalizing acc with
  | nil         => exact ⟨acc, rfl⟩
  | cons a l ih =>
    have hl : Copyable l := fun a ha => h a (List.mem_cons_of_mem _ ha)
    obtain ⟨path, x⟩ := a
    cases x with
    | special => exact absurd rfl (h _ List.mem_cons_self)
    | link    => exact ih _ hl
    | closed  => exact ih _ hl
    | file    =>
      obtain ⟨acc', h⟩ := ih _ hl
      exact ⟨acc', completes_cons.mpr ⟨_, rfl, h⟩⟩
    | folder  =>
      obtain ⟨acc', h⟩ := ih _ hl
      exact ⟨acc', completes_cons.mpr ⟨_, rfl, h⟩⟩

theorem completes_populating {n : Subdir} {l : Listing γ} (h : Preparable c) :
    ∃ l', completes (populating (trees c n) (some l)) (some l) = .ok (some l') := by
  rw [trees]
  cases hc : c n with
  | none     => exact ⟨l, rfl⟩
  | some src =>
    obtain ⟨l', hl⟩ := completes_copies_any l (h n src hc).reverse
    exact ⟨l', completes_cons.mpr ⟨_, rfl, hl⟩⟩

theorem populate_calmly (n : Subdir) (h : Preparable c) (hs : s.candidate = trees c ∧ ∀ m, (s.slot m).isSome) :
    ∃ s', populate calmly n s = (s', none) ∧ s'.candidate = trees c ∧ ∀ m, (s'.slot m).isSome := by
  obtain ⟨l, hl⟩ := Option.isSome_iff_exists.mp (hs.2 n)
  obtain ⟨l', hc⟩ := completes_populating (n := n) (l := l) h
  have ha : access n calm (populating (s.candidate n)) (s.slot n) = (some l', none) :=
    access_calm (by rw [hs.1, hl]; exact hc)
  have hr : (access n calm (populating (s.candidate n)) (s.slot n)).snd = none := congrArg Prod.snd ha
  refine ⟨_, Prod.ext rfl hr, hs.1, fun m => ?_⟩
  change (Function.update s.slot n (access n calm (populating (s.candidate n)) (s.slot n)).fst m).isSome
  rw [ha, Function.update_apply]
  split
  case isTrue  => rfl
  case isFalse => exact hs.2 m

theorem clear_calmly (n : Subdir) (hs : s.candidate = trees c ∧ ∀ m, s.slot m = some []) :
    ∃ s', onSlot n (runMountRootAccess calm clearing) s = (s', none) ∧ s'.candidate = trees c ∧
      ∀ m, s'.slot m = some [] := by
  have ha : runMountRootAccess calm clearing (s.slot n) = (some [], none) :=
    runMountRootAccess_calm (by rw [hs.2 n]; rfl)
  have hr : (runMountRootAccess calm clearing (s.slot n)).snd = none := congrArg Prod.snd ha
  refine ⟨_, Prod.ext rfl hr, hs.1, fun m => ?_⟩
  change Function.update s.slot n (runMountRootAccess calm clearing (s.slot n)).fst m = _
  rw [ha, Function.update_apply]
  split
  case isTrue  => rfl
  case isFalse => exact hs.2 m

theorem prepareActiveSlot_calmly (h : Preparable c) :
    ∃ s, prepareActiveSlot calmly ⟨trees c, fun _ => none⟩ = (s, none) ∧ s.candidate = trees c := by
  let cleared : Staging γ := ⟨trees c, fun _ => some []⟩
  obtain ⟨s₁, h₁, hc, hs⟩ := Effect.inTurn_of_returns slotSubdirs
    (P := fun s : Staging γ => s.candidate = trees c ∧ ∀ m, s.slot m = some []) (fun n _ hs => clear_calmly n hs)
    (⟨rfl, fun _ => rfl⟩ : cleared.candidate = trees c ∧ ∀ m, cleared.slot m = some [])
  have hs₁ : s₁.candidate = trees c ∧ ∀ m, (s₁.slot m).isSome := ⟨hc, fun m => by rw [hs m]; rfl⟩
  obtain ⟨s₂, h₂, hc, _⟩ := Effect.inTurn_of_returns slotSubdirs (fun n _ hs => populate_calmly n h hs) hs₁
  refine ⟨s₂, ?_, hc⟩
  rw [prepareActiveSlot, calmly, Effect.raiseFirst, Effect.seq_returns_iff]
  refine ⟨cleared, rfl, ?_⟩
  rw [Effect.raiseFirst, Effect.seq_returns_iff]
  refine ⟨s₁, h₁, ?_⟩
  rw [Effect.seq_returns_iff]
  exact ⟨s₂, h₂, rfl⟩

end Preparation

section Collection

variable {c : Subdir → Option (Directory γ)} {left : Subdir → Directory γ} {q : Collecting γ} {s s' : Staging γ}
         {n : Subdir} {e : Problem}

def Staging.leave (s : Staging γ) (left : Subdir → Directory γ) : Staging γ :=
  { s with slot := fun n => some (left n).entries }

abbrev turnOf (q : Collecting γ) (left : Subdir → Directory γ) (n : Subdir) : Effect (Option (Listing γ)) Problem :=
  runMountRootAccess (q.turn n) (collecting (left n).entries)

theorem collectOne_leave :
    collectOne q n (s.leave left) =
      (Staging.leave { s with candidate := Function.update s.candidate n (turnOf q left n (s.candidate n)).fst } left,
        (turnOf q left n (s.candidate n)).snd) :=
  rfl

-- The three directories one after the other, each in a turn of its own
structure Collects (q : Collecting γ) (left : Subdir → Directory γ) (t t' : Subdir → Option (Listing γ)) : Prop where
  turn  : ∀ n ∈ collectSubdirs, turnOf q left n (t n) = (t' n, none)
  other : ∀ n ∉ collectSubdirs, t' n = t n

theorem collectOne_returns (h : collectOne q n (s.leave left) = (s', none)) :
    turnOf q left n (s.candidate n) = (s'.candidate n, none) ∧ (∀ m, m ≠ n → s'.candidate m = s.candidate m) ∧
      s' = Staging.leave s' left := by
  rw [collectOne_leave] at h
  obtain ⟨rfl, hr⟩ := Prod.mk.inj h
  refine ⟨Prod.ext (Function.update_self n _ s.candidate).symm hr, fun m hm => Function.update_of_ne hm _ _, rfl⟩

theorem collects_of_returns (h : collectActiveSlot q (s.leave left) = (s', none)) :
    Collects q left s.candidate s'.candidate := by
  obtain ⟨_, h⟩ := Effect.raiseFirst_returns_iff.mp h
  obtain ⟨s₁, h₁, h⟩ := Effect.seq_returns_iff.mp h
  obtain ⟨s₂, h₂, h⟩ := Effect.seq_returns_iff.mp h
  obtain ⟨s₃, h₃, h⟩ := Effect.seq_returns_iff.mp h
  obtain rfl : s₃ = s' := (Prod.mk.inj h).1
  obtain ⟨t₁, o₁, l₁⟩ := collectOne_returns h₁
  rw [l₁] at h₂
  obtain ⟨t₂, o₂, l₂⟩ := collectOne_returns h₂
  rw [l₂] at h₃
  obtain ⟨t₃, o₃, _⟩ := collectOne_returns h₃
  constructor
  case turn =>
    intro n hn
    simp only [collectSubdirs, List.mem_cons, List.not_mem_nil, or_false] at hn
    rcases hn with rfl | rfl | rfl
    · rw [o₃ _ (by decide), o₂ _ (by decide)]
      exact t₁
    · rw [o₃ _ (by decide), ← o₁ _ (by decide)]
      exact t₂
    · rw [← o₁ _ (by decide), ← o₂ _ (by decide)]
      exact t₃
  case other =>
    intro n hn
    simp only [collectSubdirs, List.mem_cons, List.not_mem_nil, or_false, not_or] at hn
    rw [o₃ n hn.2.2, o₂ n hn.2.1, o₁ n hn.1]

theorem collectOne_raises (h : collectOne q n (s.leave left) = (s', some e)) :
    turnOf q left n (s.candidate n) = (s'.candidate n, some e) ∧ ∀ m, m ≠ n → s'.candidate m = s.candidate m := by
  rw [collectOne_leave] at h
  obtain ⟨rfl, hr⟩ := Prod.mk.inj h
  exact ⟨Prod.ext (Function.update_self n _ s.candidate).symm hr, fun m hm => Function.update_of_ne hm _ _⟩

-- A failure before the turn of the project leaves it alone.
theorem collect_raises (h : collectActiveSlot q (s.leave left) = (s', some e)) :
    s'.candidate .project = s.candidate .project ∨
    turnOf q left .project (s.candidate .project) = (s'.candidate .project, some e) ∧
      (∃ d, turnOf q left .output (s.candidate .output) = (d, none)) ∧
      ∃ d, turnOf q left .diagnostics (s.candidate .diagnostics) = (d, none) := by
  rw [collectActiveSlot] at h
  cases hq : q.start with
  | some e =>
    rw [hq] at h
    exact .inl (congrArg (fun s => s.candidate .project) (Prod.mk.inj h).1.symm)
  | none   =>
    rw [hq] at h
    cases Effect.seq_raises_iff.mp h with
    | inl h => exact .inl ((collectOne_raises h).2 _ (by decide))
    | inr h =>
      obtain ⟨s₁, h₁, h⟩ := h
      obtain ⟨t₁, o₁, l₁⟩ := collectOne_returns h₁
      cases Effect.seq_raises_iff.mp h with
      | inl h =>
        rw [l₁] at h
        exact .inl (((collectOne_raises h).2 _ (by decide)).trans (o₁ _ (by decide)))
      | inr h =>
        obtain ⟨s₂, h₂, h⟩ := h
        rw [l₁] at h₂
        obtain ⟨t₂, o₂, l₂⟩ := collectOne_returns h₂
        cases Effect.seq_raises_iff.mp h with
        | inr h =>
          obtain ⟨_, _, h⟩ := h
          cases h
        | inl h =>
          rw [l₂] at h
          obtain ⟨t₃, _⟩ := collectOne_raises h
          rw [o₂ _ (by decide), o₁ _ (by decide)] at t₃
          rw [o₁ _ (by decide)] at t₂
          exact .inr ⟨t₃, ⟨_, t₁⟩, _, t₂⟩

-- With the first two turns done, the call ends as the turn of the project does.
theorem collect_project {d₁ d₂ : Option (Listing γ)} (hq : q.start = none)
    (h₁ : turnOf q left .output (s.candidate .output) = (d₁, none))
    (h₂ : turnOf q left .diagnostics (s.candidate .diagnostics) = (d₂, none)) :
    ∃ s', collectActiveSlot q (s.leave left) = (s', (turnOf q left .project (s.candidate .project)).snd) ∧
      s'.candidate .project = (turnOf q left .project (s.candidate .project)).fst := by
  let s₁ : Staging γ := { s with candidate := Function.update s.candidate .output d₁ }
  let s₂ : Staging γ := { s₁ with candidate := Function.update s₁.candidate .diagnostics d₂ }
  have e₁ : collectOne q .output (s.leave left) = (s₁.leave left, none) := by rw [collectOne_leave, h₁]
  have e₂ : collectOne q .diagnostics (s₁.leave left) = (s₂.leave left, none) := by
    have hd : s₁.candidate .diagnostics = s.candidate .diagnostics := rfl
    rw [collectOne_leave, hd, h₂]
  have e₃ : collectOne q .project (s₂.leave left) = _ := collectOne_leave
  have hp : s₂.candidate .project = s.candidate .project := rfl
  rw [hp] at e₃
  let d₃ := (turnOf q left .project (s.candidate .project)).fst
  let s₃ : Staging γ := { s₂ with candidate := Function.update s₂.candidate .project d₃ }
  refine ⟨s₃.leave left, ?_, Function.update_self Subdir.project _ s₂.candidate⟩
  rw [collectActiveSlot, hq, Effect.raiseFirst, collectSubdirs, Effect.inTurn, Effect.seq, e₁]
  simp only [Effect.inTurn, Effect.seq, e₂, e₃]
  cases (turnOf q left .project (s.candidate .project)).snd with
  | none   => rfl
  | some _ => rfl

end Collection

section Faithful

variable {c : Subdir → Option (Directory γ)} {left : Subdir → Directory γ} {n : Subdir}

-- The tests of one candidate: its directories are brought into the slot, the run leaves any content there, which is
-- brought back.
structure Faithful (c : Subdir → Option (Directory γ)) (left : Subdir → Directory γ) : Prop where
  exact    : ∀ before p q s s', prepareActiveSlot p ⟨trees c, before⟩ = (s, none) →
               collectActiveSlot q (s.leave left) = (s', none) →
               (∀ n ∈ collectSubdirs, SameFiles (s'.candidate n) (left n).entries) ∧
               ∀ n ∉ collectSubdirs, s'.candidate n = trees c n
  prepared : ∀ before p s e, prepareActiveSlot p ⟨trees c, before⟩ = (s, some e) →
               s.candidate .project = trees c .project
  atomic   : ∀ before p q s s' e, prepareActiveSlot p ⟨trees c, before⟩ = (s, none) →
               collectActiveSlot q (s.leave left) = (s', some e) → s'.candidate .project = trees c .project

-- Nothing in the two trees keeps the turn of the directory from coming to its end.
def Passes (c : Subdir → Option (Directory γ)) (left : Subdir → Directory γ) (n : Subdir) : Prop :=
  Clearable (trees c n) ∧ Copyable (left n).entries

theorem passes_of_returns {q : Collecting γ} {d : Option (Listing γ)}
    (h : turnOf q left n (trees c n) = (d, none)) : Passes c left n :=
  ⟨clearable_of_returns h, (copied_of_returns h).1⟩

-- When the calls are faithful whatever fails: the files of the slot can be read, and the turn of the project has no
-- second step, or its first one is refused, or it isn't reached.
structure Safe (c : Subdir → Option (Directory γ)) (left : Subdir → Directory γ) : Prop where
  readable : (∀ n ∈ collectSubdirs, Passes c left n) → ∀ n ∈ collectSubdirs, Readable (left n).entries
  project  : Passes c left .output → Passes c left .diagnostics → Stuck (trees c .project) ∨
               c .project = none ∧ ∀ a ∈ (left .project).entries, a.snd.Skipped

-- The environment that lets nothing fail, but for the turn of the project
def collectingWith (turn : Turn γ) : Collecting γ :=
  ⟨none, fun n => if n = .project then turn else calm⟩

theorem calmly_returns (h : Passes c left n) :
    ∃ d, runMountRootAccess calm (collecting (left n).entries) (trees c n) = (d, none) :=
  returns_of_clearable h.1 h.2

theorem candidate_of_prepared {before : Subdir → Option (Listing γ)} {p : Preparing γ} {s : Staging γ}
    {r : Option Problem} (h : prepareActiveSlot p ⟨trees c, before⟩ = (s, r)) : s.candidate = trees c := by
  have hc := candidate_prepareActiveSlot (p := p) (s := ⟨trees c, before⟩)
  rwa [h] at hc

theorem faithful_iff : Faithful c left ↔ (Preparable c → Safe c left) := by
  constructor
  · intro h hp
    obtain ⟨s, hs, hc⟩ := prepareActiveSlot_calmly hp
    constructor
    case readable =>
      intro hpass n hn
      obtain ⟨d₁, h₁⟩ := calmly_returns (hpass .output (by decide))
      obtain ⟨d₂, h₂⟩ := calmly_returns (hpass .diagnostics (by decide))
      obtain ⟨d₃, h₃⟩ := calmly_returns (hpass .project (by decide))
      rw [← hc] at h₁ h₂ h₃
      obtain ⟨s', hs', _⟩ := collect_project (q := collectingWith calm) rfl h₁ h₂
      have hr : collectActiveSlot (collectingWith calm) (s.leave left) = (s', none) := by
        have hp : turnOf (collectingWith calm) left .project (s.candidate .project) = (d₃, none) := h₃
        rw [hs', hp]
      have hsame := (h.exact _ _ _ _ _ hs hr).1 n hn
      exact (copied_of_returns ((collects_of_returns hr).turn n hn)).2.sameFiles_iff.mp hsame
    case project =>
      intro ho hd
      by_contra hn
      rw [not_or] at hn
      obtain ⟨d₁, h₁⟩ := calmly_returns ho
      obtain ⟨d₂, h₂⟩ := calmly_returns hd
      have hnone : ¬(trees c .project = none ∧ ∀ a ∈ (left .project).entries, a.snd.Skipped) := fun hp =>
        hn.2 ⟨Option.map_eq_none_iff.mp hp.1, hp.2⟩
      obtain ⟨d₃, h₃, hne⟩ := exists_changed hn.1 hnone
      rw [← hc] at h₁ h₂ h₃
      obtain ⟨s', hs', hd'⟩ := collect_project (q := collectingWith secondFails) rfl h₁ h₂
      have hr : turnOf (collectingWith secondFails) left .project (s.candidate .project) = (d₃, some .other) := h₃
      rw [hr] at hs' hd'
      have ha := h.atomic _ _ _ _ _ _ hs hs'
      exact hne (hd'.symm.trans ha)
  · intro h
    constructor
    case exact =>
      intro before p q s s' hp hq
      have hc := candidate_of_prepared hp
      have hcol := collects_of_returns hq
      rw [hc] at hcol
      refine ⟨fun n hn => ?_, hcol.other⟩
      have hr := (h (preparable_of_returns hp)).readable (fun m hm => passes_of_returns (hcol.turn m hm)) n hn
      exact (copied_of_returns (hcol.turn n hn)).2.sameFiles_iff.mpr hr
    case prepared =>
      intro before p s e hp
      exact congrFun (candidate_of_prepared hp) .project
    case atomic =>
      intro before p q s s' e hp hq
      have hc := candidate_of_prepared hp
      cases collect_raises hq with
      | inl h => exact h.trans (congrFun hc _)
      | inr hr =>
        obtain ⟨ht, ⟨_, ho⟩, _, hd⟩ := hr
        rw [hc] at ht ho hd
        cases (h (preparable_of_returns hp)).project (passes_of_returns ho) (passes_of_returns hd) with
        | inl hs => exact unchanged_of_raises (fun ha => attempt_stuck hs ha) ht
        | inr hn =>
          have hnone : trees c .project = none := by rw [trees, hn.1]; rfl
          rw [hnone] at ht ⊢
          exact unchanged_of_raises (fun ha => attempt_nothing hn.2 ha) ht

theorem eq_of_snd {α β : Type} {x : α × β} {b : β} (h : x.snd = b) : x = (x.fst, b) :=
  Prod.ext rfl h

-- A candidate whose project holds a link to a file
def linked : Directory String where
  entries := [(["a.py"], .file "x = 1"), (["b.py"], .link)]
  walk    := by decide
  rooted  := by decide
  hidden  := by decide

def bare : Directory String :=
  ⟨[], by decide, by decide, by decide⟩

def linkedCandidate : Subdir → Option (Directory String)
  | .project => some linked
  | _        => none

def linkedPrepared : Staging String × Option Problem :=
  prepareActiveSlot calmly ⟨trees linkedCandidate, fun _ => none⟩

def linkedCollected : Staging String × Option Problem :=
  collectActiveSlot (collectingWith calm) (linkedPrepared.fst.leave fun _ => bare)

theorem not_faithful : ¬Faithful linkedCandidate fun _ => bare := by
  intro h
  have hp : linkedPrepared.snd = none := by decide +kernel
  have hr : linkedCollected.snd = some .other := by decide +kernel
  -- the file before the link is gone
  have hl : linkedCollected.fst.candidate .project = some [(["b.py"], .link)] := by decide +kernel
  have ha : linkedCollected.fst.candidate .project = trees linkedCandidate .project :=
    h.atomic _ _ _ _ _ _ (eq_of_snd hp) (eq_of_snd hr)
  rw [hl] at ha
  exact absurd ha (by decide)

end Faithful

end Container.ActiveSlot
