import BridleModel.CodeMap.Listing
import BridleModel.Library.Paging
import BridleModel.Library.Utf8

open Except Plan

namespace CodeMap

section Cursors

variable {v : Json.Scalar} {vs : List Json.Scalar}

theorem decodeCursor_encodeCursor :
    decodeCursor (some (encodeCursor (v :: vs))) = .ok ((v :: vs).map Json.Scalar.json) := by
  have hb : ∀ n ∈ (Json.dumpsAscii (v :: vs)).toUTF8.toList.map UInt8.toNat, n < 256 := by
    intro n hn
    obtain ⟨b, -, rfl⟩ := List.mem_map.mp hn
    exact b.toNat_lt
  have hu : ((Json.dumpsAscii (v :: vs)).toUTF8.toList.map UInt8.toNat).map UInt8.ofNat =
      (Json.dumpsAscii (v :: vs)).toUTF8.toList := by
    rw [List.map_map]
    exact List.map_id'' (fun _ => UInt8.ofNat_toNat) _
  unfold decodeCursor encodeCursor
  simp only [String.toList_ofList, Base64.decode_encode hb, Option.map_some, hu, Option.bind_some,
    Utf8.fromUTF8?_toList, Json.loads_dumpsAscii]

theorem decodeOrderCursor_encodeCursor {order : Int} {id : String} :
    decodeOrderCursor (some (encodeCursor [.num order, .str id])) = .ok (order, id) := by
  rw [decodeOrderCursor, decodeCursor_encodeCursor]
  rfl

theorem decodePathCursor_encodeCursor {path id : String} :
    decodePathCursor (some (encodeCursor [.str path, .str id])) = .ok (path, id) := by
  rw [decodePathCursor, decodeCursor_encodeCursor]
  rfl

theorem decodeTextCursor_encodeCursor {id : String} :
    decodeTextCursor (some (encodeCursor [.str id])) = .ok id := by
  rw [decodeTextCursor, decodeCursor_encodeCursor]
  rfl

theorem rowCursor_toDigits {n : Nat} : rowCursor (some (.ofList (Nat.toDigits 10 n))) = n := by
  obtain ⟨c, cs, hd, -⟩ := @Json.toDigits_cons n
  have ha : (Nat.toDigits 10 n).all Char.isDigit = true := List.all_eq_true.mpr Json.isDigit_toDigits
  have hn : Nat.ofDigitChars 10 (Nat.toDigits 10 n) 0 = n := Nat.ofDigitChars_ten_toDigits
  rw [hd] at ha hn
  simp only [rowCursor, Option.map_some, String.toList_ofList, hd, ha, if_true, hn]

theorem encodeCursor_ne : encodeCursor (v :: vs) ≠ "" := by
  intro h
  have hd : decodeCursor (some "") = .error (invalidCursor "Invalid cursor") := rfl
  have he : decodeCursor (some (encodeCursor (v :: vs))) = .ok ((v :: vs).map Json.Scalar.json) :=
    decodeCursor_encodeCursor
  rw [h, hd] at he
  cases he

end Cursors

section Refinement

theorem boundedLimit_pos {limit : Int} : 0 < boundedLimit limit := by
  rw [boundedLimit]
  omega

variable {σ α β κ : Type} {view : β → α} {encode : κ → String}

-- The page that is sent for a page of rows
def sent (view : β → α) (encode : κ → String) (more : Bool) (page : Paging.Page β κ) : Page α where
  items      := page.items.map view
  nextCursor := page.next.map encode
  hasMore    := if more then some page.next.isSome else none

theorem withMore_sent {p : Paging.Page β κ} :
    (sent view encode false p).withMore = sent view encode true p := by
  simp [sent, Page.withMore]

variable [LinearOrder κ]

-- A request is answered with a page of the rows that it meets, in the order of their keys.
structure Lists (fetch : Option String → σ × Int → Except Error (Page α)) (rows : σ → List β) (key : β → κ)
    (view : β → α) (encode : κ → String) (more : Bool) : Prop where
  first   : ∀ s limit, fetch none (s, limit) =
    .ok (sent view encode more (Paging.page key (rows s) none (boundedLimit limit)))
  next    : ∀ k s limit, fetch (some (encode k)) (s, limit) =
    .ok (sent view encode more (Paging.page key (rows s) (some k) (boundedLimit limit)))
  encodes : ∀ s, ∀ b ∈ rows s, encode (key b) ≠ ""

variable {fetch : Option String → σ × Int → Except Error (Page α)} {rows : σ → List β} {key : β → κ}
  {more : Bool} {k : Option κ} {requests : List (σ × Int)} {items : List α}

def met (rows : σ → List β) (r : σ × Int) : List β × Nat :=
  (rows r.fst, boundedLimit r.snd)

namespace Lists

theorem answer (h : Lists fetch rows key view encode more) (r : σ × Int) : fetch (k.map encode) r =
    .ok (sent view encode more (Paging.page key (met rows r).fst k (met rows r).snd)) := by
  cases k with
  | none   => exact h.first r.fst r.snd
  | some k => exact h.next k r.fst r.snd

theorem follows (h : Lists fetch rows key view encode more)
    (ht : traverse fetch (k.map encode) requests = some items) :
    ∃ found, Paging.follow key k (requests.map (met rows)) = some found ∧ items = found.map view := by
  induction requests generalizing k items with
  | nil              => cases ht
  | cons r rest hi =>
    unfold traverse at ht
    rw [h.answer r] at ht
    dsimp only [sent] at ht
    rw [List.map_cons]
    unfold Paging.follow
    dsimp only
    cases hn : (Paging.page key (met rows r).fst k (met rows r).snd).next with
    | none    =>
      rw [hn] at ht
      dsimp only [Option.map_none] at ht
      split at ht
      case isFalse   => cases ht
      case isTrue hr =>
        cases ht
        exact ⟨_, by simp [hr], rfl⟩
    | some k' =>
      rw [hn] at ht
      dsimp only [Option.map_some] at ht
      obtain ⟨more', hm, rfl⟩ := Option.map_eq_some_iff.mp ht
      obtain ⟨found, hf, rfl⟩ := hi (k := some k') hm
      refine ⟨_, ?_, (List.map_append ..).symm⟩
      dsimp only
      rw [hf]
      rfl

theorem truthy_next (h : Lists fetch rows key view encode more) {s : σ} {limit : Nat} :
    truthy ((Paging.page key (rows s) k limit).next.map encode) =
      (Paging.page key (rows s) k limit).next.isSome := by
  cases hn : (Paging.page key (rows s) k limit).next with
  | none    => rfl
  | some k' =>
    obtain ⟨items, last, hp, rfl⟩ := Paging.page_more hn
    have hm : last ∈ Paging.behind key (rows s) k :=
      Paging.page_sublist.mem (hp ▸ List.mem_append_right _ (List.mem_singleton_self _))
    simpa [truthy] using h.encodes s last (Paging.mem_behind.mp hm).left

-- A complete result of `fetchAllPages` holds the items of a traversal.
theorem traverses (h : Lists fetch rows key view encode more) {cap : Int} {before : List α}
    (hc : before.length < cap)
    (hf : fetchAllPages fetch cap before (k.map encode) requests = some { items, truncated := false }) :
    ∃ used later, used <+: requests ∧ traverse fetch (k.map encode) used = some later ∧
      items = before ++ later := by
  induction requests generalizing k before with
  | nil            =>
    unfold fetchAllPages at hf
    rw [if_pos hc] at hf
    cases hf
  | cons r rest hi =>
    unfold fetchAllPages at hf
    rw [if_pos hc] at hf
    dsimp only at hf
    rw [h.answer r] at hf
    dsimp only [sent, met] at hf
    rw [h.truthy_next] at hf
    have hm : (if more = true then some (Paging.page key (rows r.fst) k (boundedLimit r.snd)).next.isSome
        else none).getD (Paging.page key (rows r.fst) k (boundedLimit r.snd)).next.isSome =
          (Paging.page key (rows r.fst) k (boundedLimit r.snd)).next.isSome := by
      cases more <;> rfl
    simp only [hm, or_self] at hf
    cases hn : (Paging.page key (rows r.fst) k (boundedLimit r.snd)).next with
    | none    =>
      rw [hn] at hf
      cases hf
      refine ⟨[r], _, List.prefix_append .., ?_, rfl⟩
      unfold traverse
      rw [h.answer r]
      dsimp only [sent, met]
      rw [hn]
      rfl
    | some k' =>
      rw [hn] at hf
      simp only [Option.isSome_some, Bool.not_true, Bool.false_eq_true, if_false] at hf
      split at hf
      case isTrue     => cases hf
      case isFalse hl =>
        obtain ⟨used, later, hu, ht, rfl⟩ := hi (k := some k') (not_le.mp hl) hf
        refine ⟨r :: used, _, List.cons_prefix_cons.mpr ⟨rfl, hu⟩, ?_, List.append_assoc ..⟩
        unfold traverse
        rw [h.answer r]
        dsimp only [sent, met]
        rw [hn]
        dsimp only [Option.map_some]
        rw [show some (encode k') = (some k').map encode from rfl, ht]
        rfl

end Lists

-- The items of all pages, for a client that follows the cursors and for `fetchAllPages`
def Listed (fetch : Option String → σ × Int → Except Error (Page α)) (requests : List (σ × Int))
    (items : List α) : Prop :=
  traverse fetch none requests = some items ∨
    ∃ cap > 0, fetchAllPages fetch cap [] none requests = some { items, truncated := false }

theorem Lists.once (h : Lists fetch rows key view encode more) (same : α → Bool)
    (hk : ∀ s, ((rows s).map key).Nodup) (hl : Listed fetch requests items) {k : κ}
    (hm : ∀ r ∈ requests, ∃ b ∈ rows r.fst, key b = k)
    (hs : ∀ r ∈ requests, ∀ b ∈ rows r.fst, same (view b) = true ↔ key b = k) :
    ∃ b, (∃ r ∈ requests, b ∈ rows r.fst) ∧ key b = k ∧ items.filter same = [view b] := by
  have hu : ∃ used, used <+: requests ∧ traverse fetch none used = some items := by
    cases hl with
    | inl ht => exact ⟨requests, List.prefix_rfl, ht⟩
    | inr hf =>
      obtain ⟨cap, hc, hf⟩ := hf
      obtain ⟨used, later, hu, ht, rfl⟩ := h.traverses (k := none) hc hf
      exact ⟨used, hu, ht⟩
  obtain ⟨used, hu, ht⟩ := hu
  obtain ⟨found, hf, rfl⟩ := h.follows (k := none) ht
  have hr : ∀ request ∈ used.map (met rows), (request.fst.map key).Nodup ∧ 0 < request.snd := by
    intro request hr
    obtain ⟨r, -, rfl⟩ := List.mem_map.mp hr
    exact ⟨hk r.fst, boundedLimit_pos⟩
  have hc := Paging.follow_complete hr hf
  have hm' : ∀ request ∈ used.map (met rows), ∃ b ∈ request.fst, key b = k := by
    intro request hr
    obtain ⟨r, hu', rfl⟩ := List.mem_map.mp hr
    exact hm r (hu.subset hu')
  have hs' : ∀ request ∈ used.map (met rows), ∀ b ∈ request.fst, same (view b) = true ↔ key b = k := by
    intro request hr
    obtain ⟨r, hu', rfl⟩ := List.mem_map.mp hr
    exact hs r (hu.subset hu')
  obtain ⟨b, hb, he⟩ := hc.once (fun b => same (view b)) hm' hs'
  have hbf : b ∈ found := List.mem_of_mem_filter (hb ▸ List.mem_singleton_self b)
  obtain ⟨request, hr, hbr⟩ := hc.origin b hbf
  obtain ⟨r, hu', rfl⟩ := List.mem_map.mp hr
  refine ⟨b, ⟨r, hu.subset hu', hbr⟩, he, ?_⟩
  rw [List.filter_map]
  exact congrArg _ hb

theorem pageOf_select {found : List β} {k : Option κ} {cursor : β → String} {limit : Int} {s : List β}
    (hc : ∀ b, cursor b = encode (key b))
    (hf : found = Paging.select key s k (boundedLimit limit + 1)) :
    pageOf found (boundedLimit limit) view cursor =
      sent view encode false (Paging.page key s k (boundedLimit limit)) := by
  have hc : cursor = encode ∘ key := funext hc
  subst hf hc
  simp only [pageOf, sent, Paging.page]
  split <;> simp

end Refinement

section Listings

variable {parentId : Option String} {query : String} {lower : String → String} {kinds : List String}

def childRows (parentId : Option String) (db : Db) : List NodeRow :=
  db.nodes.rows.filter fun row => ¬row.archived ∧ row.parentId = parentId

def foundRows (lower : String → String) (query : String) (db : Db) : List NodeRow :=
  db.nodes.rows.filter fun row => ¬row.archived ∧ row.found lower query

def relationRows (kinds : List String) (db : Db) : List RelationRow :=
  db.relations.rows.filter fun row => kinds = [] ∨ row.kind ∈ kinds

theorem select_rows {β κ : Type} [LinearOrder κ] {key : β → κ} {s : List β} {k : Option κ} {n : Nat}
    {q : β → Bool} (h : ∀ b ∈ s, q b = k.all (· < key b)) :
    ((s.filter q).insertionSort (key · ≤ key ·)).take n = Paging.select key s k n := by
  rw [Paging.select, List.filter_congr h]

theorem select_filter {β κ : Type} [LinearOrder κ] {key : β → κ} {s : List β} {k : Option κ} {n : Nat}
    {p q : β → Bool} (h : ∀ b ∈ s, q b = (p b && k.all (· < key b))) :
    ((s.filter q).insertionSort (key · ≤ key ·)).take n = Paging.select key (s.filter p) k n := by
  rw [Paging.select, List.filter_filter, List.filter_congr h]
  simp only [Bool.and_comm]

theorem sent_map {α β γ κ : Type} [LinearOrder κ] {key : β → κ} {f : γ → β} {view : β → α}
    {encode : κ → String} {more : Bool} {s : List γ} {k : Option κ} {n : Nat} :
    sent view encode more (Paging.page key (s.map f) k n) =
      sent (fun a => view (f a)) encode more (Paging.page (fun a => key (f a)) s k n) := by
  rw [Paging.page_map]
  simp [sent]

theorem lt_position {order : Int} {id : String} {node : Node} : toLex (order, id) < node.position ↔
    node.order > order ∨ node.order = order ∧ node.id > id := by
  rw [Node.position, Prod.Lex.toLex_lt_toLex, eq_comm]

theorem lt_entityPosition {path id : String} {row : EntityRow} : toLex (path, id) < row.position ↔
    row.path > path ∨ row.path = path ∧ row.id > id := by
  rw [EntityRow.position, Prod.Lex.toLex_lt_toLex, eq_comm]

theorem pos_of_ne {text : String} (h : text ≠ "") : text > "" := by
  have hl : text.toList ≠ [] := fun hl => h (String.toList_eq_nil_iff.mp hl)
  obtain ⟨c, cs, hc⟩ := List.exists_cons_of_ne_nil hl
  exact String.lt_iff.mpr (hc ▸ List.nil_lt_cons c cs)

theorem children_lists : Lists (fun cursor r => children parentId r.snd cursor r.fst)
    (fun db => (childRows parentId db).map db.rowToNode) Node.position id
    (fun k => encodeCursor [.num (ofLex k).fst, .str (ofLex k).snd]) false where
  first s limit := by
    rw [sent_map]
    refine congrArg Except.ok (pageOf_select (fun _ => rfl) (select_filter fun b _ => ?_))
    simp
  next k s limit := by
    rw [sent_map, children, decodeOrderCursor_encodeCursor]
    refine congrArg Except.ok (pageOf_select (fun _ => rfl) (select_filter fun b _ => ?_))
    have hk : k < (s.rowToNode b).position ↔ _ := lt_position
    rw [Bool.eq_iff_iff]
    simp only [Option.all_some, Bool.and_eq_true, decide_eq_true_iff, hk, Option.isNone_some,
      Bool.false_eq_true, false_or, and_assoc]
    rfl
  encodes _ _ _ := encodeCursor_ne

theorem search_lists : Lists (fun cursor r => search lower query r.snd cursor r.fst)
    (fun db => (foundRows lower query db).map db.rowToNode) Node.id id (fun k => encodeCursor [.str k]) false where
  first s limit := by
    rw [sent_map]
    refine congrArg Except.ok (pageOf_select (fun _ => rfl) (select_filter fun b hb => ?_))
    have hn := pos_of_ne (s.named.left b hb)
    simp [hn]
  next k s limit := by
    rw [sent_map, search, decodeTextCursor_encodeCursor]
    refine congrArg Except.ok (pageOf_select (fun _ => rfl) (select_filter fun b _ => ?_))
    rw [Bool.eq_iff_iff]
    simp only [Option.all_some, Bool.and_eq_true, decide_eq_true_iff]
    tauto
  encodes _ _ _ := encodeCursor_ne

theorem entities_lists : Lists (fun cursor r => listCodeEntities r.snd cursor r.fst)
    (fun db => db.entities.rows) EntityRow.position EntityRow.entity
    (fun k => encodeCursor [.str (ofLex k).fst, .str (ofLex k).snd]) true where
  first s limit := by
    refine congrArg Except.ok ?_
    rw [← withMore_sent]
    refine congrArg Page.withMore (pageOf_select (fun _ => rfl) (select_rows fun b hb => ?_))
    have hn := pos_of_ne (s.named.right.left b hb)
    have hp : b.path > "" ∨ b.path = "" ∧ b.id > "" := by
      by_cases h : b.path = ""
      case pos => exact Or.inr ⟨h, hn⟩
      case neg => exact Or.inl (pos_of_ne h)
    exact decide_eq_true hp
  next k s limit := by
    rw [listCodeEntities, decodePathCursor_encodeCursor]
    refine congrArg Except.ok ?_
    rw [← withMore_sent]
    refine congrArg Page.withMore (pageOf_select (fun _ => rfl) (select_rows fun b _ => ?_))
    have hk : k < b.position ↔ _ := lt_entityPosition
    exact decide_eq_decide.mpr hk.symm
  encodes _ _ _ := encodeCursor_ne

theorem relations_lists : Lists (fun cursor r => listCodeRelations kinds r.snd cursor r.fst)
    (relationRows kinds) (·.rowid) RelationRow.relation (fun k => .ofList (Nat.toDigits 10 k)) true where
  first s limit := by
    refine congrArg Except.ok ?_
    rw [← withMore_sent]
    refine congrArg Page.withMore (pageOf_select (fun _ => rfl) (select_filter fun b hb => ?_))
    have hn := s.counted b hb
    simp [rowCursor, hn]
  next k s limit := by
    refine congrArg Except.ok ?_
    rw [← withMore_sent, rowCursor_toDigits]
    refine congrArg Page.withMore (pageOf_select (fun _ => rfl) (select_filter fun b _ => ?_))
    rw [Bool.eq_iff_iff]
    simp only [Option.all_some, Bool.and_eq_true, decide_eq_true_iff]
    tauto
  encodes _ b _ h := by
    obtain ⟨c, cs, hd, -⟩ := @Json.toDigits_cons b.rowid
    have he := congrArg String.toList h
    rw [String.toList_ofList, hd] at he
    cases he

theorem annotations_lists : Lists (fun cursor r => listSemanticAnnotations r.snd cursor r.fst)
    (fun db => db.annotations.rows) AnnotationRow.id id id true where
  first s limit := by
    refine congrArg Except.ok ?_
    rw [← withMore_sent]
    refine congrArg Page.withMore (pageOf_select (fun _ => rfl) (select_rows fun b hb => ?_))
    exact decide_eq_true (pos_of_ne (s.named.right.right b hb))
  next k s limit := by
    refine congrArg Except.ok ?_
    rw [← withMore_sent]
    exact congrArg Page.withMore (pageOf_select (fun _ => rfl) (select_rows fun _ _ => rfl))
  encodes s b hb := s.named.right.right b hb

end Listings

section Complete

variable {α κ ι : Type} {keys : α → List κ} {key : α → ι} {requests : List (Db × Int)}

-- A key that only one row can have
theorem nodup_keys {t : Table α keys} (h : ∀ {a b}, key a = key b → ∃ k ∈ keys a, k ∈ keys b) :
    (t.rows.map key).Nodup := by
  refine List.pairwise_map.mpr (t.unique.imp fun {a b} hu he => ?_)
  obtain ⟨k, ha, hb⟩ := h he
  exact hu k ha hb

theorem mem_childRows {row : NodeRow} {parentId : Option String} {db : Db} :
    row ∈ childRows parentId db ↔ row ∈ db.nodes ∧ row.archived = false ∧ row.parentId = parentId := by
  simp [childRows, Table.mem_def]

theorem mem_foundRows {row : NodeRow} {lower : String → String} {query : String} {db : Db} :
    row ∈ foundRows lower query db ↔ row ∈ db.nodes ∧ row.archived = false ∧ row.found lower query := by
  simp [foundRows, Table.mem_def]

theorem mem_relationRows {row : RelationRow} {kinds : List String} {db : Db} :
    row ∈ relationRows kinds db ↔ row ∈ db.relations ∧ (kinds = [] ∨ row.kind ∈ kinds) := by
  simp [relationRows, Table.mem_def]

theorem node_once [LinearOrder ι] {fetch : Option String → Db × Int → Except Error (Page Node)}
    {rows : Db → List NodeRow} {key : Node → ι} {encode : ι → String} {more : Bool} {items : List Node}
    {row : NodeRow} {k : ι} (hr : ∀ db, (rows db).Sublist db.nodes.rows)
    (hk : ∀ {a b}, key a = key b → a.id = b.id) (hrow : ∀ db : Db, key (db.rowToNode row) = k)
    (h : Lists fetch (fun db => (rows db).map db.rowToNode) key id encode more)
    (hl : Listed fetch requests items) (hm : ∀ r ∈ requests, row ∈ rows r.fst) :
    ∃ r ∈ requests, items.filter (·.id = row.id) = [r.fst.rowToNode row] := by
  have hn (db : Db) : (((rows db).map db.rowToNode).map key).Nodup := by
    rw [List.map_map]
    refine List.Nodup.sublist ((hr db).map _) (nodup_keys fun {a b} he => ?_)
    exact ⟨a.id, List.mem_singleton_self _, List.mem_singleton.mpr (hk he)⟩
  have hrows {r : Db × Int} (hreq : r ∈ requests) {b : NodeRow} (hb : b ∈ rows r.fst)
      (he : b.id = row.id) : b = row := by
    have hbm : b ∈ r.fst.nodes := (hr r.fst).mem hb
    have hrm : row ∈ r.fst.nodes := (hr r.fst).mem (hm r hreq)
    exact Table.eq_of_mem_keys hbm hrm (List.mem_singleton_self _) (List.mem_singleton.mpr he)
  have hmem : ∀ r ∈ requests, ∃ b ∈ (rows r.fst).map r.fst.rowToNode, key b = k := fun r hreq =>
    ⟨_, List.mem_map_of_mem (hm r hreq), hrow r.fst⟩
  have hsame : ∀ r ∈ requests, ∀ b ∈ (rows r.fst).map r.fst.rowToNode,
      decide (b.id = row.id) = true ↔ key b = k := by
    intro r hreq b hb
    obtain ⟨b, hbr, rfl⟩ := List.mem_map.mp hb
    rw [decide_eq_true_iff]
    constructor
    case mp  => exact fun he => hrows hreq hbr he ▸ hrow r.fst
    case mpr => exact fun he => hk (he.trans (hrow r.fst).symm)
  obtain ⟨b, hb, -, hf⟩ := h.once (fun b => decide (b.id = row.id)) hn hl hmem hsame
  obtain ⟨r, hreq, hb⟩ := hb
  obtain ⟨b, hbr, rfl⟩ := List.mem_map.mp hb
  have hi : (r.fst.rowToNode b).id = row.id := by
    have hbf := List.of_mem_filter (hf ▸ List.mem_singleton_self (r.fst.rowToNode b))
    exact of_decide_eq_true hbf
  exact ⟨r, hreq, hrows hreq hbr hi ▸ hf⟩

-- The other rows are shown as they are.
theorem row_once [LinearOrder ι] {α β : Type} {keys : β → List κ}
    {fetch : Option String → Db × Int → Except Error (Page α)} {t : Db → Table β keys} {rows : Db → List β} {key : β → ι} {view : β → α} {encode : ι → String}
    {more : Bool} {items : List α} {row : β} {same : α → Bool} (h : Lists fetch rows key view encode more)
    (hl : Listed fetch requests items) (hm : ∀ r ∈ requests, row ∈ rows r.fst)
    (hr : ∀ db, (rows db).Sublist (t db).rows) (hk : ∀ {a b}, key a = key b → ∃ k ∈ keys a, k ∈ keys b)
    (hs : ∀ {b}, same (view b) = true → ∃ k ∈ keys b, k ∈ keys row) (hrow : same (view row) = true) :
    items.filter same = [view row] := by
  have hrows {r : Db × Int} (hreq : r ∈ requests) {b : β} (hb : b ∈ rows r.fst)
      (he : ∃ k ∈ keys b, k ∈ keys row) : b = row := by
    obtain ⟨k, hkb, hkr⟩ := he
    exact Table.eq_of_mem_keys (t := t r.fst) ((hr r.fst).mem hb) ((hr r.fst).mem (hm r hreq)) hkb hkr
  have hsame : ∀ r ∈ requests, ∀ b ∈ rows r.fst, same (view b) = true ↔ key b = key row := by
    intro r hreq b hb
    constructor
    case mp  => exact fun he => congrArg key (hrows hreq hb (hs he))
    case mpr => exact fun he => hrows hreq hb (hk he) ▸ hrow
  obtain ⟨b, hb, he, hf⟩ := h.once same (fun db => (nodup_keys hk).sublist ((hr db).map key)) hl
    (fun r hreq => ⟨row, hm r hreq, rfl⟩) hsame
  obtain ⟨r, hreq, hb⟩ := hb
  exact hrows hreq hb (hk he) ▸ hf

theorem paging_complete :
    (∀ parentId row items, Listed (fun cursor r => children parentId r.snd cursor r.fst) requests items →
      (∀ r ∈ requests, row ∈ r.fst.nodes ∧ row.archived = false ∧ row.parentId = parentId) →
        ∃ r ∈ requests, items.filter (·.id = row.id) = [r.fst.rowToNode row]) ∧
    (∀ lower query row items,
      Listed (fun cursor r => search lower query r.snd cursor r.fst) requests items →
      (∀ r ∈ requests, row ∈ r.fst.nodes ∧ row.archived = false ∧ row.found lower query) →
        ∃ r ∈ requests, items.filter (·.id = row.id) = [r.fst.rowToNode row]) ∧
    (∀ row items, Listed (fun cursor r => listCodeEntities r.snd cursor r.fst) requests items →
      (∀ r ∈ requests, row ∈ r.fst.entities) →
        items.filter (·.id = row.id) = [row.entity]) ∧
    (∀ kinds row items, Listed (fun cursor r => listCodeRelations kinds r.snd cursor r.fst) requests items →
      (∀ r ∈ requests, row ∈ r.fst.relations ∧ (kinds = [] ∨ row.kind ∈ kinds)) →
        items.filter (fun item => item.sourceId = row.sourceId ∧ item.targetId = row.targetId ∧
          item.kind = row.kind) = [row.relation]) ∧
    (∀ row items, Listed (fun cursor r => listSemanticAnnotations r.snd cursor r.fst) requests items →
      (∀ r ∈ requests, row ∈ r.fst.annotations) →
        items.filter (·.id = row.id) = [row]) := by
  refine ⟨fun parentId row items hl hm => ?_, fun lower query row items hl hm => ?_, fun row items hl hm => ?_,
    fun kinds row items hl hm => ?_, fun row items hl hm => ?_⟩
  · refine node_once (k := toLex (row.order, row.id)) (fun _ => List.filter_sublist)
      (fun {a b} (he : Node.position a = Node.position b) => ?_) (fun _ => rfl) children_lists hl
      fun r hr => mem_childRows.mpr (hm r hr)
    exact congrArg (fun p => (ofLex p).snd) he
  · exact node_once (fun _ => List.filter_sublist) id (fun _ => rfl) search_lists hl
      fun r hr => mem_foundRows.mpr (hm r hr)
  · refine row_once (t := Db.entities) entities_lists hl hm (fun _ => List.Sublist.refl _)
      (fun {a b} he => ?_) (fun {b} he => ?_) (decide_eq_true rfl)
    · exact ⟨.id a.id, by simp, by simp [show a.id = b.id from congrArg (fun p => (ofLex p).snd) he]⟩
    · exact ⟨.id b.id, by simp, by simp [show b.id = row.id from of_decide_eq_true he]⟩
  · refine row_once (t := Db.relations) relations_lists hl (fun r hr => mem_relationRows.mpr (hm r hr))
      (fun _ => List.filter_sublist) (fun {a b} he => ?_) (fun {b} he => ?_) (decide_eq_true ⟨rfl, rfl, rfl⟩)
    · exact ⟨.rowid a.rowid, by simp [RelationRow.keys], by simp [RelationRow.keys, he]⟩
    · obtain ⟨hs, ht, hk⟩ : b.sourceId = row.sourceId ∧ b.targetId = row.targetId ∧ b.kind = row.kind :=
        of_decide_eq_true he
      exact ⟨.edge b.sourceId b.targetId b.kind, by simp [RelationRow.keys],
        by simp [RelationRow.keys, hs, ht, hk]⟩
  · refine row_once (t := Db.annotations) annotations_lists hl hm (fun _ => List.Sublist.refl _)
      (fun {a b} he => ?_) (fun {b} he => ?_) (decide_eq_true rfl)
    · exact ⟨a.id, List.mem_singleton_self _, List.mem_singleton.mpr he⟩
    · exact ⟨b.id, List.mem_singleton_self _, List.mem_singleton.mpr (of_decide_eq_true he)⟩

end Complete

namespace Sample

def call (source : String) : Relation :=
  { sourceId := source, targetId := "z", kind := "calls", payload := [] }

def isCall (source : String) (item : Relation) : Bool :=
  item.sourceId = source ∧ item.targetId = "z" ∧ item.kind = "calls"

-- The map after a scan that found the calls of these entities
def scanned (sources : List String) : Db where
  nodes       := .empty
  edges       := .empty
  entities    := .empty
  relations   := (sources.map call).foldl insertRelation .empty
  annotations := .empty
  named       := ⟨fun _ h => absurd h Table.not_mem_empty, fun _ h => absurd h Table.not_mem_empty,
    fun _ h => absurd h Table.not_mem_empty⟩
  counted     := insertRelations_counted fun _ h => absurd h Table.not_mem_empty

def requests (later : List String) : List (Db × Int) :=
  [(scanned ["a", "b", "c", "d"], 2), (scanned later, 2)]

end Sample

open Sample in
theorem paging_complete_unchanged :
    ∃ row : RelationRow, row.relation = call "c" ∧
      (["a", "b", "c", "d"].map call).filter (fun item => item.sourceId = row.sourceId ∧
        item.targetId = row.targetId ∧ item.kind = row.kind) = [row.relation] := by
  let row : RelationRow := { call "c" with rowid := 3 }
  have hl : Listed (fun cursor r => listCodeRelations [] r.snd cursor r.fst) (requests ["a", "b", "c", "d"])
      (["a", "b", "c", "d"].map call) := Or.inl rfl
  have hm : ∀ r ∈ requests ["a", "b", "c", "d"], row ∈ r.fst.relations ∧ (([] : List String) = [] ∨ row.kind ∈ []) := by
    intro r hr
    have hs : r.fst = Sample.scanned ["a", "b", "c", "d"] := by
      simp only [requests, List.mem_cons, List.not_mem_nil, or_false, or_self] at hr
      rw [hr]
    exact ⟨hs ▸ List.Mem.tail _ (.tail _ (.head _)), Or.inl rfl⟩
  exact ⟨row, rfl, paging_complete.right.right.right.left [] row _ hl hm⟩

open Sample in
-- A scan between two pages counts the relations anew.
theorem paging_skips : (∃ h, (Sample.scanned ["a", "b", "c", "d"]).replaceCodeMap [] (["b", "c", "d"].map call) h =
      some (Sample.scanned ["b", "c", "d"])) ∧
    (∀ r ∈ requests ["b", "c", "d"], ∃ row ∈ r.fst.relations, row.relation = call "c") ∧
    ∃ items, Listed (fun cursor r => listCodeRelations [] r.snd cursor r.fst) (requests ["b", "c", "d"]) items ∧
      items.filter (isCall "c") = [] := by
  refine ⟨⟨fun _ h => absurd h List.not_mem_nil, rfl⟩, fun r hr => ?_, _, Or.inl rfl, rfl⟩
  simp only [requests, List.mem_cons, List.not_mem_nil, or_false] at hr
  cases hr with
  | inl hr => exact hr ▸ ⟨{ call "c" with rowid := 3 }, .tail _ (.tail _ (.head _)), rfl⟩
  | inr hr => exact hr ▸ ⟨{ call "c" with rowid := 2 }, .tail _ (.head _), rfl⟩

end CodeMap
