import Mathlib
import Neuralbase.Storage.Engine

namespace Neuralbase.Storage

open Neuralbase.Library
open Neuralbase.Consensus (Bytes)

/-! The column families of the engine and atomic write batches over them. -/

inductive Cf where
  | data
  | metadata
  | catalog
deriving DecidableEq

abbrev Database := Cf → ColumnFamily

structure BatchOp where
  cf : Cf
  key : Bytes
  value : Option Bytes
deriving DecidableEq

abbrev WriteBatch := List BatchOp

def putCf (cf : Cf) (key value : Bytes) : BatchOp := { cf, key, value := some value }

def deleteCf (cf : Cf) (key : Bytes) : BatchOp := { cf, key, value := none }

namespace Database

def empty : Database := fun _ => .empty

def write (db : Database) (op : BatchOp) : Database :=
  Function.update db op.cf <|
    match op.value with
    | some value => (db op.cf).put op.key value
    | none => (db op.cf).delete op.key

def writeBatch (db : Database) (batch : WriteBatch) : Database := batch.foldl write db

variable {db : Database} {op : BatchOp} {batch later : WriteBatch} {cf : Cf} {key : Bytes}

theorem get_write : (db.write op cf).get key =
    if op.cf = cf ∧ op.key = key then op.value else (db cf).get key := by
  obtain ⟨family, target, value⟩ := op
  by_cases here : family = cf
  · subst here
    cases value with
    | some value => by_cases same : target = key <;>
        simp [write, SortedMap.get_put, same, Ne.symm]
    | none => by_cases same : target = key <;>
        simp [write, SortedMap.get_delete, same, Ne.symm]
  · simp [write, here, Ne.symm here]

theorem writeBatch_cons : db.writeBatch (op :: batch) = (db.write op).writeBatch batch := rfl

theorem writeBatch_append : db.writeBatch (batch ++ later) = (db.writeBatch batch).writeBatch later :=
  List.foldl_append

def Touches (batch : WriteBatch) (cf : Cf) (key : Bytes) : Prop :=
  ∃ op ∈ batch, op.cf = cf ∧ op.key = key

theorem get_untouched (untouched : ¬ Touches batch cf key) : (db.writeBatch batch cf).get key = (db cf).get key := by
  induction batch generalizing db with
  | nil => rfl
  | cons op rest induction =>
    have apart : ¬ (op.cf = cf ∧ op.key = key) := fun same => untouched ⟨op, by simp, same⟩
    rw [writeBatch_cons, induction fun ⟨op, inside, same⟩ => untouched ⟨op, by simp [inside], same⟩,
      get_write, if_neg apart]

theorem get_last (untouched : ¬ Touches later cf key) {value : Option Bytes} :
    (db.writeBatch (batch ++ ⟨cf, key, value⟩ :: later) cf).get key = value := by
  rw [writeBatch_append, writeBatch_cons, get_untouched untouched, get_write, if_pos ⟨rfl, rfl⟩]

theorem get_touched (touched : Touches batch cf key) : ∃ op ∈ batch, op.cf = cf ∧ op.key = key ∧
      ∀ db : Database, (db.writeBatch batch cf).get key = op.value := by
  induction batch with
  | nil =>
    obtain ⟨op, inside, _⟩ := touched
    cases inside
  | cons op rest induction =>
    by_cases later : Touches rest cf key
    · obtain ⟨last, inside, family, same, value⟩ := induction later
      exact ⟨last, List.mem_cons_of_mem _ inside, family, same, fun db => value (db.write op)⟩
    · obtain ⟨found, inside, family, same⟩ := touched
      rcases List.mem_cons.mp inside with rfl | inside
      · refine ⟨found, List.mem_cons_self, family, same, fun db => ?_⟩
        rw [writeBatch_cons, get_untouched later, get_write, if_pos ⟨family, same⟩]
      · exact absurd ⟨found, inside, family, same⟩ later

theorem writeBatch_spared (spares : ∀ op ∈ batch, op.cf ≠ cf) : db.writeBatch batch cf = db cf := by
  ext key : 1
  exact get_untouched fun ⟨op, inside, family, _⟩ => spares op inside family

end Database

end Neuralbase.Storage
