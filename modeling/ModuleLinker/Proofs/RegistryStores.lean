import ModuleLinker.Proofs.Registry
import ModuleLinker.Proofs.Table

/-!
# The registry as three stores

The registry of a link holds its inputs and nothing else. It can also be kept as it is looked up:
the modules by id, the ids by name in lower case, and the primary. Such a registry can contradict
itself, and it is written in three steps. So a call that adds a module is an imperative program
here, whose state is what the call leaves behind, also where it fails.

Every call on the stores of a registry gives the answer that the registry gives, and leaves the
stores of the registry that there is then: a call that fails does so before its first write. By
induction on the calls, whatever they are and however they end, the stores agree with one another
after each of them.
-/

namespace ModuleLinker

/-- What is kept of a module. -/
structure StoredModule where
  id : ModuleId
  module : Module
  isPrimary : Bool
  contentHash : String
deriving DecidableEq, Inhabited

/-- A registry that is kept as it is looked up. -/
structure RegistryStores where
  modules : Table ModuleId StoredModule := {}
  /-- The ids by name in lower case. -/
  names : Table String ModuleId := {}
  primary? : Option ModuleId := none
deriving DecidableEq

namespace RegistryStores

def ids (s : RegistryStores) : List ModuleId := s.modules.keys

def module (s : RegistryStores) (id : ModuleId) : Module :=
  ((s.modules.find? id).map StoredModule.module).getD default

def find? (s : RegistryStores) (name : String) : Option ModuleId :=
  s.names.find? (Text.asciiLower name)

def isPrimary (s : RegistryStores) (id : ModuleId) : Bool := s.primary? = some id

def secondaries (s : RegistryStores) : List ModuleId := s.ids.filter fun id ↦ !s.isPrimary id

def importOrder (s : RegistryStores) : List ModuleId := s.primary?.toList ++ s.secondaries

/-- Check a module, then write it into one store after the other. -/
def add (m : Module) (isPrimary : Bool) : EStateM LinkError RegistryStores ModuleId := do
  MonadExcept.ofExcept m.validate
  let s ← get
  let key := Text.asciiLower m.name
  if s.names.contains key then
    throw (.duplicateModule m.name)
  if let (true, some first) := (isPrimary, s.primary?) then
    throw (.multiplePrimaries (s.module first).name m.name)
  let id : ModuleId := ⟨s.modules.size⟩
  if isPrimary then
    modify fun s ↦ { s with primary? := some id }
  modify fun s ↦ { s with names := s.names.insert key id }
  modify fun s ↦ { s with modules := s.modules.insert id ⟨id, m, isPrimary, m.contentHash⟩ }
  return id

/-! ## Adding to stores

All checks come before the first write. So a call that fails has written nothing, and one that
succeeds has written to each store that it concerns. -/

/-- The stores with a module written into all of them. -/
def write (s : RegistryStores) (i : Input) : RegistryStores where
  modules := s.modules.insert ⟨s.modules.size⟩
    ⟨⟨s.modules.size⟩, i.module, i.isPrimary, i.module.contentHash⟩
  names := s.names.insert (Text.asciiLower i.module.name) ⟨s.modules.size⟩
  primary? := if i.isPrimary then some ⟨s.modules.size⟩ else s.primary?

section Run

variable {s : RegistryStores} {m : Module} {isPrimary : Bool}

private theorem ofExcept_validate (h : m.validate = .ok ()) :
    (MonadExcept.ofExcept m.validate : EStateM LinkError RegistryStores Unit) = pure () := by
  rw [h]
  rfl

theorem run_add_of_malformed {e : LinkError} (h : m.validate = .error e) :
    (add m isPrimary).run s = .error e s := by
  rw [add, h]
  rfl

theorem run_add_of_known (h : m.validate = .ok ())
    (hknown : s.names.contains (Text.asciiLower m.name) = true) :
    (add m isPrimary).run s = .error (.duplicateModule m.name) s := by
  simp [add, ofExcept_validate h, hknown]

theorem run_add_of_second {first : ModuleId} (h : m.validate = .ok ())
    (hnew : s.names.contains (Text.asciiLower m.name) = false)
    (hprimary : s.primary? = some first) :
    (add m true).run s = .error (.multiplePrimaries (s.module first).name m.name) s := by
  simp [add, ofExcept_validate h, hnew, hprimary]

theorem run_add_of_new {i : Input} (h : i.module.validate = .ok ())
    (hnew : s.names.contains (Text.asciiLower i.module.name) = false)
    (hprimary : i.isPrimary = true → s.primary? = none) :
    (add i.module i.isPrimary).run s = .ok ⟨s.modules.size⟩ (s.write i) := by
  unfold add write
  rw [ofExcept_validate h]
  cases hi : i.isPrimary with
  | true =>
    simp only [EStateM.run_bind, EStateM.run_pure, EStateM.run_get, hnew, hprimary hi]
    rfl
  | false =>
    simp only [EStateM.run_bind, EStateM.run_pure, EStateM.run_get, hnew]
    rfl

end Run

/-- A call that adds a module: its answer, and the stores it leaves behind. -/
def call (i : Input) : StateM RegistryStores (Except LinkError ModuleId) := fun s ↦
  match (add i.module i.isPrimary).run s with
  | .ok id s' => (.ok id, s')
  | .error e s' => (.error e, s')

end RegistryStores

namespace Registry

/-- A call that adds a module to a registry, which a failed call leaves as it is. -/
def call (i : Input) : StateM Registry (Except LinkError ModuleId) := fun r ↦
  match r.add i.module i.isPrimary with
  | .ok (id, r') => (.ok id, r')
  | .error e => (.error e, r)

/-! ## The stores of a registry -/

/-- A registry as stores. -/
def stores (r : Registry) : RegistryStores where
  modules := ⟨r.inputs.mapIdx fun k i ↦ (⟨k⟩, ⟨⟨k⟩, i.module, i.isPrimary, i.module.contentHash⟩)⟩
  names := ⟨r.inputs.mapIdx fun k i ↦ (Text.asciiLower i.module.name, ⟨k⟩)⟩
  primary? := r.primary?

variable {r : Registry}

theorem ids_stores (r : Registry) : r.stores.ids = r.ids := by
  refine List.ext_getElem ?_ fun k h h' ↦ ?_ <;>
    simp [stores, RegistryStores.ids, Table.keys, ids]

theorem mem_keys_stores {id : ModuleId} : id ∈ r.stores.modules.keys ↔ id.index < r.size := by
  rw [← mem_ids, ← r.ids_stores]
  rfl

theorem size_modules_stores (r : Registry) : r.stores.modules.size = r.size := by
  simp [stores, Table.size, size]

theorem find?_modules_stores {k : Nat} (hk : k < r.inputs.length) :
    r.stores.modules.find? ⟨k⟩ = some ⟨⟨k⟩, r.inputs[k].module, r.inputs[k].isPrimary,
      r.inputs[k].module.contentHash⟩ := by
  have hnodup : r.stores.modules.keys.Nodup := by
    have hids := r.nodup_ids
    rwa [← r.ids_stores] at hids
  refine (Table.find?_eq_some_iff_mem hnodup).mpr ?_
  exact List.mem_mapIdx.mpr ⟨k, hk, rfl⟩

theorem module_stores (r : Registry) (id : ModuleId) : r.stores.module id = r.module id := by
  by_cases hid : id.index < r.inputs.length
  · rw [RegistryStores.module, find?_modules_stores hid, Registry.module, input,
      List.getD_eq_getElem _ _ hid]
    rfl
  · have hnone : r.stores.modules.find? id = none :=
      Table.find?_eq_none_iff.mpr fun hmem ↦ hid (mem_keys_stores.mp hmem)
    rw [RegistryStores.module, hnone, module_of_not_lt hid]
    rfl

private theorem lookup_mapIdx_name (inputs : List Input) (name : String) (mk : Nat → ModuleId) :
    (inputs.mapIdx fun k i ↦ (Text.asciiLower i.module.name, mk k)).lookup (Text.asciiLower name)
      = (inputs.findIdx? fun i ↦ Text.sameName i.module.name name).map mk := by
  induction inputs generalizing mk with
  | nil => rfl
  | cons i rest ih =>
    rw [List.mapIdx_cons, List.lookup_cons, List.findIdx?_cons, ih]
    by_cases hname : Text.sameName i.module.name name = true
    · rw [if_pos hname, ← Text.sameName_iff.mp hname]
      simp
    · rw [if_neg hname]
      rw [Text.sameName_iff] at hname
      simp [beq_eq_false_iff_ne.mpr (Ne.symm hname), Option.map_map, Function.comp_def]

theorem find?_stores (r : Registry) (name : String) : r.stores.find? name = r.find? name :=
  lookup_mapIdx_name r.inputs name ModuleId.mk

theorem primary?_append {i : Input} (hprimary : i.isPrimary = true → r.primary? = none) :
    primary? ⟨r.inputs ++ [i]⟩ = if i.isPrimary then some ⟨r.size⟩ else r.primary? := by
  rw [primary?, List.findIdx?_append]
  by_cases hi : i.isPrimary = true
  · have hnone := hprimary hi
    rw [primary?, Option.map_eq_none_iff] at hnone
    simp [hnone, hi, size]
  · simp [hi, primary?]

theorem stores_append {i : Input} (hnew : r.find? i.module.name = none)
    (hprimary : i.isPrimary = true → r.primary? = none) :
    stores ⟨r.inputs ++ [i]⟩ = r.stores.write i := by
  have hmodules : r.stores.modules.find? ⟨r.size⟩ = none :=
    Table.find?_eq_none_iff.mpr fun hmem ↦ Nat.lt_irrefl _ (mem_keys_stores.mp hmem)
  have hnames : r.stores.names.find? (Text.asciiLower i.module.name) = none :=
    (r.find?_stores _).trans hnew
  rw [RegistryStores.write, size_modules_stores, Table.insert_of_find?_eq_none hmodules,
    Table.insert_of_find?_eq_none hnames]
  simp [stores, primary?_append hprimary, size]

/-- Adding to the stores of a registry is adding to the registry. -/
theorem run_add_stores (r : Registry) (i : Input) :
    (RegistryStores.add i.module i.isPrimary).run r.stores
      = match r.add i.module i.isPrimary with
        | .ok (id, r') => .ok id r'.stores
        | .error e => .error e r.stores := by
  have hknown : r.stores.names.contains (Text.asciiLower i.module.name)
      = (r.find? i.module.name).isSome := by
    rw [← r.find?_stores]
    rfl
  cases hvalid : i.module.validate with
  | error e =>
    rw [RegistryStores.run_add_of_malformed hvalid, Registry.add, hvalid]
    rfl
  | ok _ =>
    cases hfind : r.find? i.module.name with
    | some id =>
      rw [hfind] at hknown
      rw [RegistryStores.run_add_of_known hvalid hknown, Registry.add, hvalid, hfind]
      rfl
    | none =>
      rw [hfind] at hknown
      by_cases hsecond : i.isPrimary = true ∧ r.primary?.isSome
      · obtain ⟨hi, hsome⟩ := hsecond
        obtain ⟨first, hfirst⟩ := Option.isSome_iff_exists.mp hsome
        rw [hi, RegistryStores.run_add_of_second hvalid hknown hfirst, module_stores, Registry.add,
          hvalid, hfind, hfirst]
        rfl
      · have hprimary : i.isPrimary = true → r.primary? = none := by
          intro hi
          simpa [hi] using hsecond
        have hadd : r.add i.module i.isPrimary = .ok (⟨r.size⟩, ⟨r.inputs ++ [i]⟩) :=
          add_eq_ok_iff.mpr ⟨Module.validate_eq_ok_iff.mp hvalid, hfind, hprimary, rfl⟩
        rw [RegistryStores.run_add_of_new hvalid hknown hprimary, hadd, size_modules_stores]
        exact congrArg _ (stores_append hfind hprimary).symm

theorem secondaries_stores (r : Registry) : r.stores.secondaries = r.secondaries := by
  rw [RegistryStores.secondaries, ids_stores]
  rfl

theorem importOrder_stores (r : Registry) : r.stores.importOrder = r.importOrder := by
  rw [RegistryStores.importOrder, secondaries_stores]
  rfl

/-! ## Calls

Calls may fail in between, and a failed call takes part in nothing: the ids that were given out
are numbered by the calls that succeeded. -/

theorem run_call_stores (r : Registry) (i : Input) :
    (RegistryStores.call i).run r.stores
      = (((call i).run r).1, ((call i).run r).2.stores) := by
  change (match (RegistryStores.add i.module i.isPrimary).run r.stores with
    | .ok id s' => (Except.ok id, s')
    | .error e s' => (.error e, s')) = _
  rw [run_add_stores]
  simp only [call, StateT.run]
  cases r.add i.module i.isPrimary with
  | error e => rfl
  | ok added => rfl

end Registry

/-- The inputs whose calls succeeded, in the order of the calls. -/
def taken (calls : List Input) (answers : List (Except LinkError ModuleId)) : List Input :=
  ((calls.zip answers).filter fun c ↦ c.2.isOk).map Prod.fst

theorem taken_cons (i : Input) (calls : List Input) (a : Except LinkError ModuleId)
    (answers : List (Except LinkError ModuleId)) :
    taken (i :: calls) (a :: answers)
      = if a.isOk then i :: taken calls answers else taken calls answers := by
  simp only [taken, List.zip_cons_cons, List.filter_cons]
  split <;> rfl

theorem run_mapM_cons {σ α β : Type} (f : α → StateM σ β) (a : α) (l : List α) (s : σ) :
    ((a :: l).mapM f).run s
      = (((f a).run s).1 :: ((l.mapM f).run ((f a).run s).2).1,
        ((l.mapM f).run ((f a).run s).2).2) := by
  rw [List.mapM_cons]
  rfl

namespace Registry

variable {r : Registry}

/-- A call is answered with the next id and adds its input, or it fails and changes nothing. -/
theorem run_call_cases (hr : r.Accepted) (hone : r.SinglePrimary) (i : Input) :
    (∃ r' : Registry, (call i).run r = (.ok ⟨r.size⟩, r') ∧ r'.Accepted ∧ r'.SinglePrimary
        ∧ r'.inputs = r.inputs ++ [i])
      ∨ ∃ e, (call i).run r = (.error e, r) := by
  cases hadd : r.add i.module i.isPrimary with
  | error e => exact .inr ⟨e, by simp [call, StateT.run, hadd]⟩
  | ok added =>
    obtain ⟨id, r'⟩ := added
    obtain ⟨-, -, -, heq⟩ := add_eq_ok_iff.mp hadd
    obtain ⟨hid, -⟩ := Prod.mk.inj heq
    obtain ⟨hr', hone', hinputs⟩ := (exists_add_eq_ok_iff hr hone).mp ⟨id, hadd⟩
    exact .inl ⟨r', by simp [call, StateT.run, hadd, hid], hr', hone', hinputs⟩

/-- Calls keep a registry in order, whatever they are. -/
theorem run_calls (hr : r.Accepted) (hone : r.SinglePrimary) (calls : List Input) :
    ∃ answers, ∃ r' : Registry, (calls.mapM call).run r = (answers, r')
      ∧ (calls.mapM RegistryStores.call).run r.stores = (answers, r'.stores)
      ∧ r'.Accepted ∧ r'.SinglePrimary ∧ r'.inputs = r.inputs ++ taken calls answers
      ∧ answers.filterMap Except.toOption
        = (List.range' r.size (taken calls answers).length).map ModuleId.mk := by
  induction calls generalizing r with
  | nil => exact ⟨[], r, rfl, rfl, hr, hone, by simp [taken], rfl⟩
  | cons i rest ih =>
    have hstores := run_call_stores r i
    rcases run_call_cases hr hone i with ⟨r₁, hcall, hr₁, hone₁, hinputs⟩ | ⟨e, hcall⟩
    · obtain ⟨answers, r', hrun, hrun', hr', hone', hinputs', hids⟩ := ih hr₁ hone₁
      have hsize : r₁.size = r.size + 1 := by simp [size, hinputs]
      have htaken : taken (i :: rest) (.ok ⟨r.size⟩ :: answers) = i :: taken rest answers :=
        taken_cons ..
      rw [hcall] at hstores
      refine ⟨.ok ⟨r.size⟩ :: answers, r', ?_, ?_, hr', hone', ?_, ?_⟩
      · rw [run_mapM_cons, hcall, hrun]
      · rw [run_mapM_cons, hstores, hrun']
      · rw [hinputs', hinputs, htaken, List.append_assoc, List.singleton_append]
      · rw [htaken, List.length_cons, List.range'_succ, List.map_cons, ← hsize, ← hids]
        rfl
    · obtain ⟨answers, r', hrun, hrun', hr', hone', hinputs', hids⟩ := ih hr hone
      have htaken : taken (i :: rest) (.error e :: answers) = taken rest answers := taken_cons ..
      rw [hcall] at hstores
      refine ⟨.error e :: answers, r', ?_, ?_, hr', hone', ?_, ?_⟩
      · rw [run_mapM_cons, hcall, hrun]
      · rw [run_mapM_cons, hstores, hrun']
      · rw [hinputs', htaken]
      · rw [List.filterMap_cons_none rfl, hids, htaken]

end Registry

/-! ## The stores agree with one another -/

/-- The stores hold the inputs that were taken, and agree on them. -/
structure RegistryStores.InOrder (s : RegistryStores) (taken : List Input) : Prop where
  ids : s.ids = (List.range taken.length).map ModuleId.mk
  stored : ∀ k (hk : k < taken.length), s.modules.find? ⟨k⟩ = some ⟨⟨k⟩, taken[k].module,
    taken[k].isPrimary, taken[k].module.contentHash⟩
  /-- No two names are equal but for case, and a name finds the module that has it. -/
  names : taken.Pairwise fun i j ↦ Text.sameName i.module.name j.module.name = false
  find?_iff : ∀ name id,
    s.find? name = some id ↔ id ∈ s.ids ∧ Text.sameName (s.module id).name name = true
  /-- No two modules are primary, and the primary is the one that is marked. -/
  onePrimary : taken.Pairwise fun i j ↦ (i.isPrimary && j.isPrimary) = false
  primary_mem : ∀ id, s.primary? = some id → id ∈ s.ids
  marked : ∀ id stored, s.modules.find? id = some stored → stored.isPrimary = s.isPrimary id
  /-- The import order goes through all modules once, the primary first and the others in order. -/
  importOrder_nodup : s.importOrder.Nodup
  mem_importOrder : ∀ id, id ∈ s.importOrder ↔ id ∈ s.ids
  primary_first : ∀ id, s.primary? = some id → s.importOrder.head? = some id
  increasing :
    (s.importOrder.filter fun id ↦ !s.isPrimary id).Pairwise fun a b ↦ a.index < b.index

/-- Whatever is read from the stores is what the registry says. -/
structure RegistryStores.Reads (s : RegistryStores) (r : Registry) : Prop where
  ids : s.ids = r.ids
  module : ∀ id, s.module id = r.module id
  find? : ∀ name, s.find? name = r.find? name
  primary? : s.primary? = r.primary?
  isPrimary : ∀ id, s.isPrimary id = r.isPrimary id
  secondaries : s.secondaries = r.secondaries
  importOrder : s.importOrder = r.importOrder

namespace Registry

variable {r : Registry}

theorem reads_stores (r : Registry) : r.stores.Reads r where
  ids := r.ids_stores
  module := r.module_stores
  find? := r.find?_stores
  primary? := rfl
  isPrimary _ := rfl
  secondaries := r.secondaries_stores
  importOrder := r.importOrder_stores

theorem pairwise_secondaries (r : Registry) :
    r.secondaries.Pairwise fun a b ↦ a.index < b.index := by
  refine List.Pairwise.filter _ (List.pairwise_map.mpr ?_)
  exact List.pairwise_lt_range

theorem inOrder_stores (hr : r.Accepted) (hone : r.SinglePrimary) : r.stores.InOrder r.inputs where
  ids := r.ids_stores
  stored _ hk := find?_modules_stores hk
  names := hr.names
  find?_iff name id := by rw [find?_stores, hr.find?_eq_some_iff, ids_stores, module_stores]
  onePrimary := hone
  primary_mem id hid := by
    rw [ids_stores, mem_ids]
    exact primary?_lt hid
  marked id stored hstored := by
    have hid : id.index < r.size := mem_keys_stores.mp (Table.mem_keys_of_find? hstored)
    have hread : r.input id = r.inputs[id.index] := List.getD_eq_getElem _ _ hid
    obtain rfl := Option.some.inj ((find?_modules_stores hid).symm.trans hstored)
    exact (congrArg Input.isPrimary hread).symm.trans (hone.isPrimary_eq hid).symm
  importOrder_nodup := by
    rw [importOrder_stores]
    exact r.nodup_importOrder
  mem_importOrder id := by rw [importOrder_stores, mem_importOrder, ids_stores, mem_ids]
  primary_first id hid := by
    have hp : r.primary? = some id := hid
    rw [importOrder_stores, importOrder, hp]
    rfl
  increasing := by
    have hprimary : (r.primary?.toList.filter fun id ↦ !r.isPrimary id) = [] := by
      refine List.filter_eq_nil_iff.mpr fun id hid ↦ ?_
      simp [isPrimary, Option.mem_toList.mp hid]
    rw [importOrder_stores]
    change (r.importOrder.filter fun id ↦ !r.isPrimary id).Pairwise _
    rw [importOrder, List.filter_append, hprimary, List.nil_append]
    exact r.pairwise_secondaries.filter _

/-- A call succeeds when its module is valid, its name is new and it is no second primary. -/
theorem run_call_stores_eq_ok_iff {i : Input} :
    (∃ id, ((RegistryStores.call i).run r.stores).1 = .ok id)
      ↔ i.module.validate = .ok ()
        ∧ (∀ j ∈ r.inputs, Text.sameName j.module.name i.module.name = false)
        ∧ (i.isPrimary = true → ∀ j ∈ r.inputs, j.isPrimary = false) := by
  have hfind : r.find? i.module.name = none
      ↔ ∀ j ∈ r.inputs, Text.sameName j.module.name i.module.name = false := by
    simp only [find?, Option.map_eq_none_iff, List.findIdx?_eq_none_iff]
  rw [run_call_stores, Module.validate_eq_ok_iff, ← hfind, ← primary?_eq_none_iff]
  constructor
  · rintro ⟨id, hid⟩
    cases hadd : r.add i.module i.isPrimary with
    | error e => simp [call, StateT.run, hadd] at hid
    | ok added =>
      obtain ⟨hfault, hnew, hprimary, -⟩ := add_eq_ok_iff.mp hadd
      exact ⟨hfault, hnew, hprimary⟩
  · rintro ⟨hfault, hnew, hprimary⟩
    have hadd := add_eq_ok_iff.mpr ⟨hfault, hnew, hprimary, rfl⟩
    exact ⟨⟨r.size⟩, by simp [call, StateT.run, hadd]⟩

/-- A call that fails leaves the stores exactly as they were. -/
theorem run_call_stores_of_error {i : Input} {e : LinkError}
    (h : ((RegistryStores.call i).run r.stores).1 = .error e) :
    ((RegistryStores.call i).run r.stores).2 = r.stores := by
  rw [run_call_stores] at h ⊢
  cases hadd : r.add i.module i.isPrimary with
  | error e => simp [call, StateT.run, hadd]
  | ok added => simp [call, StateT.run, hadd] at h

end Registry

/-- After any calls on an empty registry, however they end, the stores agree with one another and
with the registry, the calls that succeeded were answered with the ids in order, and whether the
next call succeeds is up to its module, its name and the primary; if it fails, nothing changes. -/
theorem inOrder_of_calls (calls : List Input) :
    ∃ answers s, ∃ r : Registry,
      (calls.mapM RegistryStores.call).run {} = (answers, s)
      ∧ (calls.mapM Registry.call).run {} = (answers, r) ∧ s.Reads r
      ∧ s.InOrder (taken calls answers) ∧ answers.filterMap Except.toOption = s.ids
      ∧ ∀ i : Input,
        ((∃ id, ((RegistryStores.call i).run s).1 = .ok id)
          ↔ i.module.validate = .ok ()
            ∧ (∀ j ∈ taken calls answers, Text.sameName j.module.name i.module.name = false)
            ∧ (i.isPrimary = true → ∀ j ∈ taken calls answers, j.isPrimary = false))
        ∧ ∀ e, ((RegistryStores.call i).run s).1 = .error e
          → ((RegistryStores.call i).run s).2 = s := by
  obtain ⟨answers, r, hrun, hstores, hr, hone, hinputs, hids⟩ :=
    Registry.run_calls (r := {}) ⟨by simp, by simp⟩ List.Pairwise.nil calls
  rw [List.nil_append] at hinputs
  refine ⟨answers, r.stores, r, hstores, hrun, r.reads_stores, ?_, ?_, fun i ↦ ⟨?_, fun e ↦ ?_⟩⟩
  · rw [← hinputs]
    exact Registry.inOrder_stores hr hone
  · rw [hids, ← hinputs, r.ids_stores, Registry.ids, List.range_eq_range']
    rfl
  · rw [← hinputs]
    exact Registry.run_call_stores_eq_ok_iff
  · exact Registry.run_call_stores_of_error

/-- Six calls: a library, a primary whose type has no declaring type to name, a primary, the library
again in other letters, a second primary, and another library. -/
def mixedCalls : List Input := [
  { module := { name := "Lib" }, isPrimary := false },
  { module := { name := "Broken", types := [{ name := "Orphan", declaring := some ⟨3⟩ }] }
    isPrimary := true },
  { module := { name := "App" }, isPrimary := true },
  { module := { name := "LIB" }, isPrimary := false },
  { module := { name := "Other" }, isPrimary := true },
  { module := { name := "Kit" }, isPrimary := false }]

/-- Failures between the calls shift no id, and the primary is imported first. -/
theorem inOrder_mixedCalls :
    ∃ s, (mixedCalls.mapM RegistryStores.call).run {}
        = ([.ok ⟨0⟩, .error (.malformedModule "Broken" (.outOfRange ⟨⟨.type, 0⟩, .type, 3⟩ 1)),
          .ok ⟨1⟩, .error (.duplicateModule "LIB"), .error (.multiplePrimaries "App" "Other"),
          .ok ⟨2⟩], s)
      ∧ s.InOrder [mixedCalls[0], mixedCalls[2], mixedCalls[5]]
      ∧ s.importOrder = [⟨1⟩, ⟨0⟩, ⟨2⟩] := by
  obtain ⟨answers, s, r, hrun, -, -, horder, -⟩ := inOrder_of_calls mixedCalls
  have hanswers : ((mixedCalls.mapM RegistryStores.call).run {}).1
      = [.ok ⟨0⟩, .error (.malformedModule "Broken" (.outOfRange ⟨⟨.type, 0⟩, .type, 3⟩ 1)),
        .ok ⟨1⟩, .error (.duplicateModule "LIB"), .error (.multiplePrimaries "App" "Other"),
        .ok ⟨2⟩] := by decide +kernel
  have himports : ((mixedCalls.mapM RegistryStores.call).run {}).2.importOrder
      = [⟨1⟩, ⟨0⟩, ⟨2⟩] := by decide +kernel
  rw [hrun] at hanswers himports
  obtain rfl : answers = _ := hanswers
  exact ⟨s, hrun, horder, himports⟩

end ModuleLinker
