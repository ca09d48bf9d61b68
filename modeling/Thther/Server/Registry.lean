import Thther.Proto.Control
import Thther.Server.SessionShared
import Mathlib.Data.List.AList

/-!
# The daemon's table of live sessions (`server/registry.rs`)

A `Registry` maps ids to sessions, which are references into a heap as `Arc<SessionShared>` is.
A `Daemon` is the heap with the table over it; its field `keyed` says that every entry is a
session filed under its own id, and every operation on daemons carries it along.
-/

namespace Thther

/-- An `Arc<SessionShared>`. -/
abbrev SessionRef := ℕ

/-- `Registry`. -/
structure Registry where
  map : AList fun _ : String => SessionRef

namespace Registry

def new : Registry := ⟨∅⟩

def insert (g : Registry) (id : String) (r : SessionRef) : Registry := ⟨g.map.insert id r⟩

def get (g : Registry) (id : String) : Option SessionRef := g.map.lookup id

def remove (g : Registry) (id : String) : Registry := ⟨g.map.erase id⟩

def contains (g : Registry) (id : String) : Bool := (g.get id).isSome

@[simp] theorem get_new (id : String) : new.get id = none := rfl

@[simp] theorem get_insert (g : Registry) (id : String) (r : SessionRef) :
    (g.insert id r).get id = some r :=
  AList.lookup_insert _

theorem get_insert_ne (g : Registry) {id id' : String} (r : SessionRef) (h : id' ≠ id) :
    (g.insert id r).get id' = g.get id' :=
  AList.lookup_insert_ne h

@[simp] theorem get_remove (g : Registry) (id : String) : (g.remove id).get id = none :=
  AList.lookup_erase _ _

theorem get_remove_ne (g : Registry) {id id' : String} (h : id' ≠ id) :
    (g.remove id).get id' = g.get id' :=
  AList.lookup_erase_ne h

theorem get_remove_eq_some {g : Registry} {id id' : String} {r : SessionRef} :
    (g.remove id).get id' = some r ↔ id' ≠ id ∧ g.get id' = some r := by
  by_cases h : id' = id
  · subst h
    simp
  · rw [get_remove_ne g h]
    simp [h]

theorem contains_eq_false {g : Registry} {id : String} :
    g.contains id = false ↔ g.get id = none := by
  rw [contains, Option.isSome_eq_false_iff, Option.isNone_iff_eq_none]

end Registry

/-- The line of `thther ls` for a session. -/
def SessionShared.info (s : SessionShared) : SessionInfo where
  id := s.id
  started := s.started
  status := s.statusStr
  cmd := s.cmd

/-- The sessions of a daemon, in the order of their creation, and its registry. -/
structure Daemon where
  sessions : List SessionShared
  registry : Registry
  keyed : ∀ id r, registry.get id = some r → ∃ s, sessions[r]? = some s ∧ s.id = id

namespace Daemon

/-- `registry.get(id)`, dereferenced. -/
def find (d : Daemon) (id : String) : Option (SessionRef × SessionShared) :=
  (d.registry.get id).bind fun r => (d.sessions[r]?).map fun s => (r, s)

/-- `registry.list()`. -/
def list (d : Daemon) : List SessionInfo :=
  let v := d.registry.map.entries.filterMap fun e => (d.sessions[e.2]?).map SessionShared.info
  v.mergeSort fun a b => a.started ≤ b.started

/-- A change of one session that keeps its id. -/
def modify (d : Daemon) (r : SessionRef) (f : SessionShared → SessionShared)
    (hf : ∀ s, (f s).id = s.id) : Daemon where
  sessions := d.sessions.modify r f
  registry := d.registry
  keyed id q hq := by
    obtain ⟨s, hs, hid⟩ := d.keyed id q hq
    rw [List.getElem?_modify, hs]
    by_cases h : r = q
    · exact ⟨f s, by simp [h], by rw [hf, hid]⟩
    · exact ⟨s, by simp [h], hid⟩

/-- A new session, inserted into the registry. -/
def register (d : Daemon) (s : SessionShared) : Daemon where
  sessions := d.sessions ++ [s]
  registry := d.registry.insert s.id d.sessions.length
  keyed id q hq := by
    by_cases h : id = s.id
    · subst h
      rw [Registry.get_insert, Option.some.injEq] at hq
      exact ⟨s, by rw [← hq, List.getElem?_concat_length], rfl⟩
    · rw [Registry.get_insert_ne _ _ h] at hq
      obtain ⟨t, ht, hid⟩ := d.keyed id q hq
      exact ⟨t, List.getElem?_append_left (List.getElem?_eq_some_iff.1 ht).1 ▸ ht, hid⟩

/-- What `find` returns is filed under the id asked for. -/
theorem find_eq_some {d : Daemon} {id : String} {r : SessionRef} {s : SessionShared} :
    d.find id = some (r, s) ↔ d.registry.get id = some r ∧ d.sessions[r]? = some s := by
  simp [find, Option.bind_eq_some_iff]

/-- An id is free exactly when `find` fails. -/
theorem find_eq_none {d : Daemon} {id : String} :
    d.find id = none ↔ d.registry.contains id = false := by
  rw [Registry.contains_eq_false]
  constructor
  · intro h
    cases hr : d.registry.get id with
    | none => rfl
    | some r =>
      obtain ⟨s, hs, -⟩ := d.keyed id r hr
      simp [find, hr, hs] at h
  · intro h
    rw [find, h, Option.bind_none]

end Daemon

end Thther
