import Mathlib.Data.List.Perm.Subperm
import ModuleLinker.Proofs.Forwarding
import ModuleLinker.Proofs.Registry

/-!
# Walks along forwarders

A walk goes from module to module while each sends the name on to one that is new and does not have
it. The modules that it has come through are distinct and take part in the link, so it makes no more
hops than there are modules, and the bound on its length is never what ends it. Each module sends
the name to one place, so there is one walk, and it ends in one way.
-/

namespace ModuleLinker

/-! ## Walks and their ends

A trail is a walk without a bound. Its modules are distinct, and all of them but the origin are
known to take part in the link, since names are only sent to such modules; the origin takes part
as soon as it sends a name on. -/

/-- The modules that a walk has come through, in order, and the last of them. Each sends the name on
to the one behind it, which is new and has no type of the name. -/
inductive Trail (ctx : Context) (qualified : String) (origin : ModuleId) :
    List ModuleId → ModuleId → Prop
  | start : Trail ctx qualified origin [origin] origin
  | hop {visited : List ModuleId} {current next : ModuleId}
      (h : Trail ctx qualified origin visited current)
      (hhop : ctx.hop current qualified = .merged next) (hnew : next ∉ visited)
      (hnone : ctx.findType? next qualified = none) :
      Trail ctx qualified origin (visited ++ [next]) next

/-- How a walk ends at the last of the modules that it has come through. -/
inductive EndsIn (ctx : Context) (qualified : String) (visited : List ModuleId)
    (current : ModuleId) : Except LinkError ForwardEnd → Prop
  /-- It is sent on to a new module that has a type of the name, the first of which counts. -/
  | defined {next : ModuleId} {type : TypeId} (hhop : ctx.hop current qualified = .merged next)
      (hnew : next ∉ visited) (hfind : ctx.findType? next qualified = some type) :
      EndsIn ctx qualified visited current (.ok (.defined next type))
  /-- It is sent back to a module that it has come through. -/
  | circle {next : ModuleId} (hhop : ctx.hop current qualified = .merged next)
      (hseen : next ∈ visited) :
      EndsIn ctx qualified visited current
        (.error (.cyclicForwarder (ctx.circle qualified visited next)))
  /-- It is not sent on, and some module has a type of the name. -/
  | elsewhere {definer : ModuleId} {type : TypeId}
      (hstop : ∀ next, ctx.hop current qualified ≠ .merged next)
      (hany : ctx.findAnywhere? qualified = some (definer, type)) :
      EndsIn ctx qualified visited current (.ok (.defined definer type))
  /-- It is sent outside the link, and no module has a type of the name. -/
  | external {a : AssemblyRefId} (hhop : ctx.hop current qualified = .external a)
      (hout : ctx.merged? ((ctx.module current).assemblyRef a).name = none)
      (hnowhere : ctx.findAnywhere? qualified = none) :
      EndsIn ctx qualified visited current (.ok (.external current a))
  /-- It is not sent anywhere, and no module has a type of the name. -/
  | unresolved (hhop : ctx.hop current qualified = .none)
      (hnowhere : ctx.findAnywhere? qualified = none) :
      EndsIn ctx qualified visited current (.ok .unresolved)

namespace Context

variable {ctx : Context} {qualified : String}

theorem hop_eq_none {m : ModuleId} (h : ¬m.index < ctx.registry.size) :
    ctx.hop m qualified = .none := by
  have hempty : ctx.module m = default := Registry.module_of_not_lt h
  have hnone : (default : Module).findExport? qualified = none := rfl
  rw [hop, hempty]
  simp [hnone]

theorem lt_of_hop {m next : ModuleId} (h : ctx.hop m qualified = .merged next) :
    m.index < ctx.registry.size := by
  by_contra hm
  rw [hop_eq_none hm] at h
  cases h

theorem hop_lt {m next : ModuleId} (h : ctx.hop m qualified = .merged next) :
    next.index < ctx.registry.size := by
  unfold hop at h
  cases he : (ctx.module m).findExport? qualified with
  | none => simp [he] at h
  | some e =>
    cases hf : (ctx.module m).exportForwards e with
    | false => simp [he, hf] at h
    | true =>
      cases ha : (ctx.module m).exportAssembly? e with
      | none => simp [he, hf, ha] at h
      | some a =>
        cases hm : ctx.merged? ((ctx.module m).assemblyRef a).name with
        | none => simp [he, hf, ha, hm] at h
        | some l =>
          obtain rfl : l = next := by simpa [he, hf, ha, hm] using h
          exact Registry.find?_lt hm

end Context

namespace Trail

variable {ctx : Context} {qualified : String} {origin current next : ModuleId}
  {visited : List ModuleId}

theorem nodup (h : Trail ctx qualified origin visited current) : visited.Nodup := by
  induction h with
  | start => exact List.nodup_singleton _
  | hop _ _ hnew _ ih =>
    rw [← List.concat_eq_append]
    exact ih.concat hnew

theorem start_or_lt (h : Trail ctx qualified origin visited current) :
    (visited = [origin] ∧ current = origin) ∨ ∀ m ∈ visited, m.index < ctx.registry.size := by
  induction h with
  | start => exact .inl ⟨rfl, rfl⟩
  | @hop visited current next _ hhop _ _ ih =>
    have hvisited : ∀ m ∈ visited, m.index < ctx.registry.size := by
      rcases ih with ⟨rfl, rfl⟩ | hlt
      · intro m hm
        rw [List.mem_singleton.mp hm]
        exact Context.lt_of_hop hhop
      · exact hlt
    refine .inr fun m hm ↦ ?_
    rcases List.mem_append.mp hm with hm | hm
    · exact hvisited m hm
    · rw [List.mem_singleton.mp hm]
      exact Context.hop_lt hhop

theorem length_le_of_lt (h : Trail ctx qualified origin visited current)
    (hlt : ∀ m ∈ visited, m.index < ctx.registry.size) :
    visited.length ≤ ctx.registry.size := by
  have hsub : visited ⊆ ctx.registry.ids := fun m hm ↦ Registry.mem_ids.mpr (hlt m hm)
  have hle := (List.subperm_of_subset h.nodup hsub).length_le
  simpa [Registry.ids, Registry.size] using hle

theorem length_le (h : Trail ctx qualified origin visited current)
    (hhop : ctx.hop current qualified = .merged next) :
    visited.length ≤ ctx.registry.size := by
  refine h.length_le_of_lt ?_
  rcases h.start_or_lt with ⟨rfl, rfl⟩ | hlt
  · intro m hm
    rw [List.mem_singleton.mp hm]
    exact Context.lt_of_hop hhop
  · exact hlt

end Trail

/-! ## The walk that is made

The bounded walk is followed along a trail, and then one look at the last module decides how it
ends. A trail has no more modules than the link, so a bound of that many is never reached. -/

namespace Context

variable {ctx : Context} {qualified : String} {origin current : ModuleId}
  {visited : List ModuleId} {bound : Nat} {r : Except LinkError ForwardEnd}

/-- A walk that is at its end ends there, if it may look at one more module. -/
theorem followWithin_of_endsIn (h : EndsIn ctx qualified visited current r) (bound : Nat) :
    ctx.followWithin qualified (bound + 1) visited current = r := by
  rw [followWithin]
  cases h with
  | defined hhop hnew hfind => simp [hhop, hnew, hfind]
  | circle hhop hseen => simp [hhop, hseen]
  | @elsewhere definer type hstop hany =>
    cases hhop : ctx.hop current qualified with
    | merged next => exact absurd hhop (hstop next)
    | external a => simp [hany]
    | none => simp [hany]
  | external hhop _ hnowhere => simp [hhop, hnowhere]
  | unresolved hhop hnowhere => simp [hhop, hnowhere]

/-- A walk from an origin goes through what a trail goes through, if its bound is not below the
number of modules. -/
theorem followWithin_of_trail (h : Trail ctx qualified origin visited current)
    (hbound : ctx.registry.size ≤ bound) :
    ctx.followWithin qualified bound [origin] origin
      = ctx.followWithin qualified (bound + 1 - visited.length) visited current := by
  induction h with
  | start => rfl
  | @hop visited current next htrail hhop hnew hnone ih =>
    have hlen : visited.length ≤ bound := Nat.le_trans (htrail.length_le hhop) hbound
    have hleft : bound + 1 - visited.length = (bound - visited.length) + 1 := by omega
    have hlast : bound + 1 - (visited ++ [next]).length = bound - visited.length := by
      rw [List.length_append, List.length_singleton]
      omega
    rw [ih, hleft, hlast, followWithin]
    simp [hhop, hnew, hnone]

theorem eq_unresolved_of_endsIn (hsize : ctx.registry.size = 0)
    (h : EndsIn ctx qualified visited current r) : r = .ok .unresolved := by
  have hout : ∀ m : ModuleId, ¬m.index < ctx.registry.size := by
    intro m
    omega
  have hhop : ctx.hop current qualified = .none := hop_eq_none (hout current)
  cases h with
  | defined h | circle h | external h =>
    rw [hhop] at h
    cases h
  | elsewhere _ hany =>
    obtain ⟨l, hl, -⟩ := List.exists_of_findSome?_eq_some hany
    exact absurd (Registry.mem_importOrder.mp hl) (hout l)
  | unresolved => rfl

theorem followWithin_eq (h : Trail ctx qualified origin visited current)
    (hend : EndsIn ctx qualified visited current r) (hbound : ctx.registry.size ≤ bound) :
    ctx.followWithin qualified bound [origin] origin = r := by
  by_cases hpos : bound = 0
  · -- without modules no step is made, and none is due
    subst hpos
    rw [eq_unresolved_of_endsIn (Nat.le_zero.mp hbound) hend]
    rfl
  · have hlen : visited.length ≤ bound := by
      rcases h.start_or_lt with ⟨rfl, -⟩ | hlt
      · exact Nat.one_le_iff_ne_zero.mpr hpos
      · exact Nat.le_trans (h.length_le_of_lt hlt) hbound
    have hleft : bound + 1 - visited.length = (bound - visited.length) + 1 := by omega
    rw [followWithin_of_trail h hbound, hleft]
    exact followWithin_of_endsIn hend _

end Context

/-- Every trail leads to an end: it goes on as long as it is sent to new modules, of which there are
only so many. -/
theorem Trail.exists_end {ctx : Context} {qualified : String} {origin : ModuleId}
    {visited : List ModuleId} {current : ModuleId}
    (h : Trail ctx qualified origin visited current) :
    ∃ visited current r, Trail ctx qualified origin visited current
      ∧ EndsIn ctx qualified visited current r := by
  cases hhop : ctx.hop current qualified with
  | external a =>
    have hstop : ∀ next, ctx.hop current qualified ≠ .merged next := by simp [hhop]
    cases hany : ctx.findAnywhere? qualified with
    | none => exact ⟨_, _, _, h, .external hhop (Context.hop_external hhop).1 hany⟩
    | some found => exact ⟨_, _, _, h, .elsewhere hstop hany⟩
  | none =>
    have hstop : ∀ next, ctx.hop current qualified ≠ .merged next := by simp [hhop]
    cases hany : ctx.findAnywhere? qualified with
    | none => exact ⟨_, _, _, h, .unresolved hhop hany⟩
    | some found => exact ⟨_, _, _, h, .elsewhere hstop hany⟩
  | merged next =>
    have hlen := h.length_le hhop
    by_cases hseen : next ∈ visited
    · exact ⟨_, _, _, h, .circle hhop hseen⟩
    · cases hfind : ctx.findType? next qualified with
      | some type => exact ⟨_, _, _, h, .defined hhop hseen hfind⟩
      | none => exact (Trail.hop h hhop hseen hfind).exists_end
termination_by ctx.registry.size + 1 - visited.length
decreasing_by
  rw [List.length_append, List.length_singleton]
  omega

namespace Context

variable {ctx : Context} {qualified : String} {origin : ModuleId}

/-- A walk has the result that its trail ends with. -/
theorem followForwarders_eq_iff {r : Except LinkError ForwardEnd} :
    ctx.followForwarders origin qualified = r
      ↔ ∃ visited current, Trail ctx qualified origin visited current
        ∧ EndsIn ctx qualified visited current r := by
  constructor
  · intro hr
    have hstart : Trail ctx qualified origin [origin] origin := .start
    obtain ⟨visited, current, r', htrail, hend⟩ := hstart.exists_end
    have hr' : ctx.followForwarders origin qualified = r' :=
      followWithin_eq htrail hend (Nat.le_refl _)
    exact ⟨visited, current, htrail, (hr'.symm.trans hr) ▸ hend⟩
  · rintro ⟨visited, current, htrail, hend⟩
    exact followWithin_eq htrail hend (Nat.le_refl _)

/-- A larger bound changes nothing. -/
theorem followWithin_eq_followForwarders {bound : Nat} (hbound : ctx.registry.size ≤ bound) :
    ctx.followWithin qualified bound [origin] origin = ctx.followForwarders origin qualified := by
  obtain ⟨visited, current, htrail, hend⟩ := followForwarders_eq_iff.mp
    (rfl : ctx.followForwarders origin qualified = _)
  exact followWithin_eq htrail hend hbound

/-- Some module has a type of a name. -/
def HasType (ctx : Context) (qualified : String) : Prop :=
  ∃ l ∈ ctx.registry.ids, ∃ type, ctx.findType? l qualified = some type

theorem exists_findAnywhere?_iff :
    (∃ found, ctx.findAnywhere? qualified = some found) ↔ ctx.HasType qualified := by
  constructor
  · rintro ⟨found, hfound⟩
    obtain ⟨l, hl, htype⟩ := List.exists_of_findSome?_eq_some hfound
    obtain ⟨type, htype, -⟩ := Option.map_eq_some_iff.mp htype
    exact ⟨l, Registry.mem_ids.mpr (Registry.mem_importOrder.mp hl), type, htype⟩
  · rintro ⟨l, hl, type, htype⟩
    refine Option.isSome_iff_exists.mp (List.findSome?_isSome_iff.mpr ⟨l, ?_, ?_⟩)
    · exact Registry.mem_importOrder.mpr (Registry.mem_ids.mp hl)
    · simp [htype]

/-- A walk that is no circle ends at a definition exactly when some module has the name. -/
theorem exists_defined_iff {fin : ForwardEnd}
    (h : ctx.followForwarders origin qualified = .ok fin) :
    (∃ definer type, fin = .defined definer type) ↔ ctx.HasType qualified := by
  rw [← exists_findAnywhere?_iff]
  obtain ⟨visited, current, -, hend⟩ := followForwarders_eq_iff.mp h
  cases hend with
  | defined hhop _ hfind =>
    refine iff_of_true ⟨_, _, rfl⟩ (exists_findAnywhere?_iff.mpr ⟨_, ?_, _, hfind⟩)
    exact Registry.mem_ids.mpr (hop_lt hhop)
  | elsewhere _ hany => exact iff_of_true ⟨_, _, rfl⟩ ⟨_, hany⟩
  | external _ _ hnowhere | unresolved _ hnowhere =>
    refine iff_of_false ?_ ?_
    · rintro ⟨_, _, heq⟩
      cases heq
    · rintro ⟨found, hfound⟩
      rw [hnowhere] at hfound
      cases hfound

end Context

end ModuleLinker
