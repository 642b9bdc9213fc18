import Mathlib.Data.List.Nodup
import Mathlib.Data.List.Perm.Subperm
import Mathlib.Data.String.Basic
import RemoteCall.Power
import RemoteCall.Proofs.Server.Replies
import RemoteCall.Proofs.Text.Casing
import RemoteCall.Trait.Expansion

/-!
# One handler for each method

Registering a service puts one row for each of its names into a method table, and of several methods
of one name the last one answers (`find?_register`). So there are as many handlers as methods
exactly if the names differ. The names of an expansion are its methods' names in camel case, and
those of ASCII and Latin-1 differ if the methods' constants do and no name hides the joint of two
words (`clear_names_have_their_own_handlers`). Two numbers next to each other hide one
(`adjacent_numbers_share_a_handler`).
-/

namespace RemoteCall

/-! ## Tables -/

/-- The method behind the payloads of a format. -/
def Service.Method.handler (format : Format) (m : Service.Method) : Handler :=
  have := m.request
  have := m.response
  .ofFun format m.answer

/-- The table that serves the service alone. -/
def Service.table (s : Service) (format : Format) : MethodTable :=
  ({ format } : MethodTable).register s

namespace MethodTable

theorem find?_insertMethod (t : MethodTable) (m : Service.Method) (n : String) :
    (t.insertMethod m).find? n = if n = m.info.name then some (m.handler t.format) else t.find? n :=
  @find?_insert _ _ m.request m.response t m.info.name n m.answer

/-- Of several methods of a name the last one answers. -/
theorem find?_register (t : MethodTable) (s : Service) (n : String) :
    (t.register s).find? n =
      ((s.methods.reverse.find? (·.info.name = n)).map (·.handler t.format)).or (t.find? n) := by
  unfold register
  induction s.methods generalizing t with
  | nil => rfl
  | cons m ms ih =>
    rw [List.foldl_cons, ih, find?_insertMethod, List.reverse_cons, List.find?_append]
    cases ms.reverse.find? (·.info.name = n) with
    | some last => rfl
    | none => by_cases here : n = m.info.name <;> simp [here, eq_comm]

/-! ### Rows -/

/-- The rows stand in the order of their names, no two of one name. -/
def Ordered (rows : List (String × Handler)) : Prop := (rows.map (·.1)).Pairwise (· < ·)

theorem mem_put {name n : String} {h : Handler} {rows : List (String × Handler)} :
    n ∈ (put name h rows).map (·.1) ↔ n = name ∨ n ∈ rows.map (·.1) := by
  induction rows with
  | nil => simp [put]
  | cons r rows ih =>
    obtain ⟨m, g⟩ := r
    simp only [put]
    split
    next same => simp [same]
    next =>
      split
      · simp
      · simp only [List.map_cons, List.mem_cons, ih]
        exact or_left_comm

theorem Ordered.put {name : String} {h : Handler} {rows : List (String × Handler)}
    (ordered : Ordered rows) : Ordered (put name h rows) := by
  induction rows with
  | nil => exact List.pairwise_singleton _ _
  | cons r rows ih =>
    obtain ⟨m, g⟩ := r
    obtain ⟨least, rest⟩ := List.pairwise_cons.1 ordered
    simp only [MethodTable.put]
    split
    next same => exact same ▸ ordered
    next other =>
      split
      next before =>
        refine List.pairwise_cons.2 ⟨fun n member => ?_, ordered⟩
        rcases List.mem_cons.1 member with rfl | later
        · exact before
        · exact lt_trans before (least n later)
      next behind =>
        refine List.pairwise_cons.2 ⟨fun n member => ?_, ih rest⟩
        rcases mem_put.1 member with rfl | later
        · exact lt_of_le_of_ne (not_lt.1 behind) (Ne.symm other)
        · exact least n later

theorem ordered_register {t : MethodTable} (s : Service) (ordered : Ordered t.rows) :
    Ordered (t.register s).rows := by
  unfold register
  induction s.methods generalizing t with
  | nil => exact ordered
  | cons m ms ih => exact ih ordered.put

theorem mem_register {t : MethodTable} {s : Service} {n : String} :
    n ∈ (t.register s).methods ↔ n ∈ t.methods ∨ n ∈ s.methods.map (·.info.name) := by
  unfold register
  induction s.methods generalizing t with
  | nil => simp
  | cons m ms ih =>
    rw [List.foldl_cons, ih, List.map_cons, List.mem_cons, ← or_assoc]
    exact or_congr_left (mem_put.trans or_comm)

end MethodTable

namespace Service

variable {s : Service} {format : Format}

/-- The names of the service's methods, as its schema lists them. -/
def names (s : Service) : List String := s.schema.methods.map (·.name)

theorem names_eq (s : Service) : s.names = s.methods.map (·.info.name) := by
  simp [names, schema]

theorem mem_table {n : String} : n ∈ (s.table format).methods ↔ n ∈ s.names := by
  rw [table, MethodTable.mem_register, names_eq]
  simp [MethodTable.methods]

theorem nodup_table : (s.table format).methods.Nodup :=
  (MethodTable.ordered_register (t := { format }) s .nil).imp fun less => less.ne

theorem perm_table (nodup : s.names.Nodup) : (s.table format).methods.Perm s.names :=
  (List.perm_ext_iff_of_nodup nodup_table nodup).2 fun _ => mem_table

/-- There are as many handlers as methods exactly if no two methods have the same name. -/
theorem length_table_iff : (s.table format).methods.length = s.methods.length ↔ s.names.Nodup := by
  have subperm : (s.table format).methods.Subperm s.names :=
    List.subperm_of_subset nodup_table fun n member => mem_table.1 member
  have size : s.names.length = s.methods.length := by rw [names_eq, List.length_map]
  constructor
  · intro same
    have perm := subperm.perm_of_length_le (by omega)
    exact perm.nodup_iff.1 nodup_table
  · intro nodup
    rw [(perm_table nodup).length_eq, size]

/-- A method whose name no other method has answers to it. -/
theorem find?_table (nodup : s.names.Nodup) {m : Service.Method} (member : m ∈ s.methods) :
    (s.table format).find? m.info.name = some (m.handler format) := by
  rw [names_eq] at nodup
  have found : s.methods.reverse.find? (·.info.name = m.info.name) = some m := by
    cases last : s.methods.reverse.find? (·.info.name = m.info.name) with
    | none => simpa using List.find?_eq_none.1 last m (List.mem_reverse.2 member)
    | some k =>
      have here : k ∈ s.methods := List.mem_reverse.1 (List.mem_of_find?_eq_some last)
      have same : k.info.name = m.info.name := by simpa using List.find?_some last
      rw [List.inj_on_of_nodup_map nodup here member same]
  rw [table, MethodTable.find?_register, found]
  rfl

end Service

/-! ## Expansions -/

namespace Trait

def Item.functionName? : Item → Option String
  | .function f => some f.name
  | .other _ => none

/-- The names of the functions that the trait declares. -/
def functionNames (t : Trait) : List String := t.items.filterMap Item.functionName?

section
variable {t : Trait} {e : Expansion}

theorem Method.name_of_ofItem {item : Item} {m : Method} (h : ofItem item = .ok m) :
    item.functionName? = some m.name := by
  cases item with
  | other => cases h
  | function f =>
    simp only [ofItem, ofFunction, bind, Except.bind, throw, throwThe, MonadExceptOf.throw, pure,
      Except.pure] at h
    repeat' split at h
    all_goals cases h
    rfl

theorem names_of_mapM {items : List Item} {methods : List Method}
    (h : items.mapM Method.ofItem = .ok methods) :
    methods.length = items.length ∧
      methods.map (·.name) = items.filterMap Item.functionName? := by
  induction items generalizing methods with
  | nil =>
    cases h
    exact ⟨rfl, rfl⟩
  | cons item items ih =>
    rw [List.mapM_cons] at h
    cases first : Method.ofItem item with
    | error => simp [first, bind, Except.bind] at h
    | ok m =>
      cases rest : items.mapM Method.ofItem with
      | error => simp [first, rest, bind, Except.bind] at h
      | ok ms =>
        obtain rfl : m :: ms = methods := by
          simpa [first, rest, bind, Except.bind, pure, Except.pure] using h
        obtain ⟨size, names⟩ := ih rest
        simp [size, names, Method.name_of_ofItem first]

/-- An accepted trait declares methods only, and the expansion has these. -/
theorem functionNames_of_expand (accepted : expand t = .ok e) :
    e.methods.length = t.items.length ∧ e.methods.map (·.name) = t.functionNames := by
  unfold expand at accepted
  split at accepted
  next => cases accepted
  next =>
    split at accepted
    next => cases accepted
    next methods expanded =>
      split at accepted
      next => cases accepted
      next =>
        obtain rfl := Except.ok.inj accepted
        exact names_of_mapM expanded

theorem names_eq_wires {s : Service} (implements : s.schema.methods = e.schema.methods) :
    s.names = e.methods.map Method.wire := by
  rw [Service.names, implements]
  simp [Expansion.schema]

/-- Methods with clear names and constants of their own have wire names of their own. -/
theorem nodup_wires (distinct : (e.constants.map (·.1)).Nodup)
    (latin : ∀ m ∈ e.methods, Casing.IsLatin m.name.toList)
    (clear : ∀ m ∈ e.methods, Casing.Clear m.name) : (e.methods.map Method.wire).Nodup := by
  have constants : (e.methods.map Method.constant).Nodup := by
    simpa [Expansion.constants, Function.comp_def] using distinct
  rw [List.nodup_map_iff_inj_on constants.of_map]
  intro m hm k hk same
  refine List.inj_on_of_nodup_map constants hm hk ?_
  exact Casing.upperSnake_eq_of_camel_eq (latin m hm) (latin k hk) (clear m hm) (clear k hk) same

/-- A proxy calls the method that stands in its place. -/
theorem proxy_name {s : Service} (implements : s.schema.methods = e.schema.methods) {k : Nat}
    {p : Expansion.Proxy} {m : Service.Method} (hp : e.proxies[k]? = some p)
    (hm : s.methods[k]? = some m) : m.info.name = p.wire := by
  have wires := congrArg (·[k]?) (names_eq_wires implements)
  rw [Expansion.proxies, List.getElem?_map, Option.map_eq_some_iff] at hp
  obtain ⟨q, here, rfl⟩ := hp
  simpa [Service.names_eq, hm, here] using wires

/-- The handlers of a service that implements an expanded trait, whose methods have names of ASCII
and Latin-1. There are as many handlers as
methods exactly if no two methods have the same wire name. That is so if their constants differ and
their names are clear. Then the table has one row for each name of the schema, each method
of the service answers to its own name, and a remote call reaches the method that makes it. -/
theorem clear_names_have_their_own_handlers {s : Service} (accepted : expand t = .ok e)
    (latin : ∀ name ∈ t.functionNames, Casing.IsLatin name.toList)
    (distinct : (e.constants.map (·.1)).Nodup)
    (implements : s.schema.methods = e.schema.methods) (format : Format) :
    ((s.table format).methods.length = t.items.length ↔ (e.methods.map Method.wire).Nodup) ∧
      ((∀ name ∈ t.functionNames, Casing.Clear name) →
        (e.methods.map Method.wire).Nodup ∧
        (s.table format).methods.Perm (e.schema.methods.map (·.name)) ∧
        (∀ m ∈ s.methods, ∀ payload,
          (s.table format).dispatch m.info.name payload = m.handler format payload) ∧
        (∀ p ∈ e.proxies, ∀ h ∈ e.handlers, h.wire = p.wire → h.method = p.method) ∧
        ∀ (k : Nat) p m, e.proxies[k]? = some p → s.methods[k]? = some m → ∀ i payload,
          Server.Call.reply? (s.table format) ⟨i, p.wire, payload⟩ =
            Outcome.frame? i (m.handler format payload).outcome) := by
  obtain ⟨size, names⟩ := functionNames_of_expand accepted
  have wires := names_eq_wires implements
  refine ⟨?_, fun clear => ?_⟩
  · have same : s.methods.length = t.items.length := by
      rw [← size]
      simpa [Service.names_eq] using congrArg List.length wires
    rw [← same, ← wires]
    exact Service.length_table_iff
  · have known : ∀ m ∈ e.methods, m.name ∈ t.functionNames := fun m member =>
      names ▸ List.mem_map_of_mem member
    have nodup := nodup_wires distinct (fun m member => latin m.name (known m member))
      fun m member => clear m.name (known m member)
    have nodup' : s.names.Nodup := wires ▸ nodup
    have dispatch : ∀ m ∈ s.methods, ∀ payload,
        (s.table format).dispatch m.info.name payload = m.handler format payload := by
      intro m member payload
      rw [MethodTable.dispatch, Service.find?_table nodup' member]
    refine ⟨nodup, implements ▸ Service.perm_table nodup', dispatch, ?_, ?_⟩
    · intro p hp h hh same
      obtain ⟨m, hm, rfl⟩ := List.mem_map.1 hp
      obtain ⟨k, hk, rfl⟩ := List.mem_map.1 hh
      obtain rfl := List.inj_on_of_nodup_map nodup hk hm same
      rfl
    · intro k p m hp hm i payload
      rw [Server.Call.reply?, ← proxy_name implements hp hm,
        dispatch m (List.mem_of_getElem? hm) payload]

end

/-! ### Contracts to show it -/

/-- A contract of methods that take a request and answer it. -/
def asking (names : List String) : Trait where
  name := "Calc"
  items := names.map fun name => .function
    { name, receiver := some (.shared none), isAsync := true
      args := [⟨["request"], .named "Request"⟩]
      ret := some (.path (.mk false [.ofArgs "RpcResult" [.type (.named "Response")]]))
      hasBody := false }

/-- Each method answers its own number. -/
def numbering (names : List String) : Service where
  name := "Calc"
  methods := names.zipIdx.map fun (name, k) =>
    { info := ⟨Casing.camel name, "Request", "Response"⟩
      answer := fun (_ : Request) => .ok (⟨.ofNat k⟩ : Response) }

theorem two_methods_have_two_handlers : ∃ e,
    expand (asking ["get_item", "get2d_item"]) = .ok e ∧ (e.constants.map (·.1)).Nodup ∧
    (numbering ["get_item", "get2d_item"]).schema.methods = e.schema.methods ∧
    (∀ name ∈ (asking ["get_item", "get2d_item"]).functionNames, Casing.IsLatin name.toList) ∧
    (∀ name ∈ (asking ["get_item", "get2d_item"]).functionNames, Casing.Clear name) ∧
    ((numbering ["get_item", "get2d_item"]).table .json).methods.Perm ["getItem", "get2DItem"] := by
  obtain ⟨e, accepted, distinct, implements, names⟩ : ∃ e,
      expand (asking ["get_item", "get2d_item"]) = .ok e ∧ (e.constants.map (·.1)).Nodup ∧
      (numbering ["get_item", "get2d_item"]).schema.methods = e.schema.methods ∧
      e.schema.methods.map (·.name) = ["getItem", "get2DItem"] :=
    ⟨_, rfl, by decide +kernel, by decide +kernel, by decide +kernel⟩
  have latin : ∀ name ∈ (asking ["get_item", "get2d_item"]).functionNames,
      Casing.IsLatin name.toList := by
    decide +kernel
  have clear : ∀ name ∈ (asking ["get_item", "get2d_item"]).functionNames, Casing.Clear name := by
    decide +kernel
  obtain ⟨-, all⟩ := clear_names_have_their_own_handlers accepted latin distinct implements .json
  exact ⟨e, accepted, distinct, implements, latin, clear, names ▸ (all clear).2.1⟩

/-- Two constants and one wire name: one handler is left, and a call of the first method reaches the
second one. -/
theorem adjacent_numbers_share_a_handler : ∃ e first second,
    expand (asking ["a_1_2", "a12"]) = .ok e ∧ (e.constants.map (·.1)).Nodup ∧
    (numbering ["a_1_2", "a12"]).schema.methods = e.schema.methods ∧
    ¬(e.methods.map Method.wire).Nodup ∧
    ((numbering ["a_1_2", "a12"]).table .json).methods = ["a12"] ∧
    (numbering ["a_1_2", "a12"]).methods = [first, second] ∧
    e.proxies.map (·.method) = ["a_1_2", "a12"] ∧ e.proxies.map (·.wire) = ["a12", "a12"] ∧
    ((numbering ["a_1_2", "a12"]).table .json).find? "a12" = some (second.handler .json) := by
  refine ⟨_, _, _, rfl, by decide +kernel, by decide +kernel, by decide +kernel, by decide +kernel,
    rfl, by decide +kernel, by decide +kernel, ?_⟩
  rw [Service.table, MethodTable.find?_register]
  rfl

end Trait

end RemoteCall
