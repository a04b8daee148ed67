import ModuleLinker.Forwarding

/-!
# Where walks end

A walk along forwarders ends at a type that an input module really has, or at a module that really
is outside the link, wherever it started and however it went.
-/

namespace ModuleLinker

theorem Context.findType?_lt {ctx : Context} {m : ModuleId} {qualified : String} {type : TypeId}
    (h : ctx.findType? m qualified = some type) : type.index < (ctx.module m).types.length :=
  Module.mem_typeIds.mp (List.mem_of_find?_eq_some h)

/-- What an end names is there: a type of an input module, or a module outside the link that an
export comes from. -/
def ForwardEnd.Stands (ctx : Context) : ForwardEnd → Prop
  | .defined d type => type.index < (ctx.module d).types.length
  | .external f a => ctx.merged? ((ctx.module f).assemblyRef a).name = none
      ∧ ∃ e ∈ (ctx.module f).exportIds, (ctx.module f).exportAssembly? e = some a
  | .unresolved => True

namespace Context

variable {ctx : Context} {qualified : String}

theorem findAnywhere?_lt {d : ModuleId} {type : TypeId}
    (h : ctx.findAnywhere? qualified = some (d, type)) :
    type.index < (ctx.module d).types.length := by
  obtain ⟨l, -, hl⟩ := List.exists_of_findSome?_eq_some h
  obtain ⟨t, ht, heq⟩ := Option.map_eq_some_iff.mp hl
  cases heq
  exact findType?_lt ht

theorem hop_external {m : ModuleId} {a : AssemblyRefId}
    (h : ctx.hop m qualified = .external a) :
    ctx.merged? ((ctx.module m).assemblyRef a).name = none
      ∧ ∃ e ∈ (ctx.module m).exportIds, (ctx.module m).exportAssembly? e = some a := by
  unfold hop at h
  cases he : (ctx.module m).findExport? qualified with
  | none => simp [he] at h
  | some e =>
    cases hf : (ctx.module m).exportForwards e with
    | false => simp [he, hf] at h
    | true =>
      cases ha : (ctx.module m).exportAssembly? e with
      | none => simp [he, hf, ha] at h
      | some a' =>
        cases hm : ctx.merged? ((ctx.module m).assemblyRef a').name with
        | some next => simp [he, hf, ha, hm] at h
        | none =>
          obtain rfl : a' = a := by simpa [he, hf, ha, hm] using h
          exact ⟨hm, e, List.mem_of_find?_eq_some he, ha⟩

private theorem stands_elsewhere {otherwise : ForwardEnd} (h : otherwise.Stands ctx) :
    ForwardEnd.Stands ctx (match ctx.findAnywhere? qualified with
      | some (id, type) => .defined id type
      | none => otherwise) := by
  cases hany : ctx.findAnywhere? qualified with
  | none => exact h
  | some found => exact findAnywhere?_lt hany

theorem stands_of_followWithin {bound : Nat} {visited : List ModuleId} {current : ModuleId}
    {fin : ForwardEnd} (h : ctx.followWithin qualified bound visited current = .ok fin) :
    fin.Stands ctx := by
  induction bound generalizing visited current with
  | zero =>
    cases h
    trivial
  | succ bound ih =>
    rw [followWithin] at h
    cases hhop : ctx.hop current qualified with
    | external a =>
      rw [hhop] at h
      cases h
      exact stands_elsewhere (hop_external hhop)
    | none =>
      -- the walk ends here, and any module that defines the name will do
      rw [hhop] at h
      cases h
      exact stands_elsewhere trivial
    | merged next =>
      simp only [hhop] at h
      split at h
      · cases h
      · cases hfind : ctx.findType? next qualified with
        | some type =>
          rw [hfind] at h
          cases h
          exact findType?_lt hfind
        | none =>
          rw [hfind] at h
          exact ih h

theorem stands_of_followForwarders {origin : ModuleId} {fin : ForwardEnd}
    (h : ctx.followForwarders origin qualified = .ok fin) : fin.Stands ctx :=
  stands_of_followWithin h

end Context

end ModuleLinker
