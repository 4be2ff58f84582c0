import BridleModel.Library.Except
import BridleModel.PlanGraph.Store
import BridleModel.ProjectMap.Store

open Except Plan

namespace CodeMap

section Rows

structure EntityRow where
  id       : String
  path     : String
  kind     : String
  name     : String
  parentId : Option String
  payload  : Json.Dict
deriving Repr

inductive EntityKey
  | id (id : String)     -- PRIMARY KEY
  | path (path : String) -- UNIQUE
deriving DecidableEq, Repr

structure RelationRow where
  rowid    : Nat
  sourceId : String
  targetId : String
  kind     : String
  payload  : Json.Dict
deriving Repr

inductive RelationKey
  | rowid (rowid : Nat)
  | edge (sourceId targetId kind : String) -- PRIMARY KEY
deriving DecidableEq, Repr

def RelationRow.keys (row : RelationRow) : List RelationKey :=
  [.rowid row.rowid, .edge row.sourceId row.targetId row.kind]

structure AnnotationRow where
  id         : String
  sourceId   : String
  summary    : String
  evidence   : Json.Dict
  model      : String
  confidence : Rat
  fileHash   : String
  status     : ProjectMap.AnnotationStatus
deriving Repr

-- `search` reads the text of the payload column.
structure NodeRow extends PlanGraph.NodeRow where
  payloadText : String
deriving Repr

-- The tables of plan.db that are listed in pages. Keys of rows are not empty, and SQLite counts rowids
-- from one.
structure Db where
  nodes       : Table NodeRow fun row => [row.id]
  edges       : Table PlanGraph.EdgeRow fun row => [row]
  entities    : Table EntityRow fun row => [.id row.id, EntityKey.path row.path]
  relations   : Table RelationRow RelationRow.keys
  annotations : Table AnnotationRow fun row => [row.id]
  named       : (∀ row ∈ nodes, row.id ≠ "") ∧ (∀ row ∈ entities, row.id ≠ "") ∧
    ∀ row ∈ annotations, row.id ≠ ""
  counted     : ∀ row ∈ relations, 0 < row.rowid

end Rows

section Rescan

-- A relation as the indexers report it
structure Relation where
  sourceId : String
  targetId : String
  kind     : String
  payload  : Json.Dict
deriving Repr

def nextRowid (relations : Table RelationRow RelationRow.keys) : Nat :=
  (relations.rows.map (·.rowid)).foldl max 0 + 1

-- `_insert_relation`: INSERT OR IGNORE
def insertRelation (relations : Table RelationRow RelationRow.keys) (r : Relation) :
    Table RelationRow RelationRow.keys :=
  (relations.insert? { r with rowid := nextRowid relations }).getD relations

def EntityRow.contains (row : EntityRow) : Option Relation :=
  match row.parentId with
  | none        => none
  | some parent =>
    if row.kind = "test" then none
    else some { sourceId := parent, targetId := row.id, kind := "contains", payload := [] }

theorem insertRelation_counted {relations : Table RelationRow RelationRow.keys} {r : Relation}
    (h : ∀ row ∈ relations, 0 < row.rowid) : ∀ row ∈ insertRelation relations r, 0 < row.rowid := by
  intro row hr
  rw [insertRelation] at hr
  cases hi : relations.insert? { r with rowid := nextRowid relations } with
  | none   => exact h row (by simpa [hi] using hr)
  | some t =>
    rw [hi, Option.getD_some, Table.mem_insert? hi] at hr
    cases hr with
    | inl hr => exact h row hr
    | inr hr => exact hr ▸ Nat.succ_pos _

theorem insertRelations_counted {relations : Table RelationRow RelationRow.keys} {rs : List Relation}
    (h : ∀ row ∈ relations, 0 < row.rowid) : ∀ row ∈ rs.foldl insertRelation relations, 0 < row.rowid := by
  induction rs generalizing relations with
  | nil          => exact h
  | cons r rs hi => exact hi (insertRelation_counted h)

-- `_replace_code_map`
def Db.replaceCodeMap (db : Db) (entities : List EntityRow) (relations : List Relation)
    (named : ∀ row ∈ entities, row.id ≠ "") : Option Db :=
  match ht : entities.foldlM Table.insert? (Table.empty : Table EntityRow _) with
  | none   => none
  | some t =>
    some { db with
      entities  := t
      relations := (entities.filterMap EntityRow.contains ++ relations).foldl insertRelation .empty
      named     := ⟨db.named.left, fun row hr =>
        named row ((Table.mem_of_insertAll ht hr).resolve_left Table.not_mem_empty), db.named.right.right⟩
      counted   := insertRelations_counted fun _ h => absurd h Table.not_mem_empty
    }

end Rescan

end CodeMap
