import ModuleLinker.Context
import ModuleLinker.Image.Revision
import ModuleLinker.SymbolMap
import ModuleLinker.Text.Replace

/-!
# Resource locators

User interface markup is addressed by locators such as `/Lib;component/Views/Main.xaml`: a module
and a path inside it. After a link the markup of every module lives in the output, under a directory
that is named like the module it came from. Locators in string literals are revised accordingly, for
modules that refer to the framework that reads them.
-/

namespace ModuleLinker

/-- The module that code with locators refers to. -/
def locatorFramework : String := "PresentationFramework"

/-- What stands before an absolute locator. -/
def packPrefix : String := "pack://application:,,,"

/-- What stands between a module and the path inside it. -/
def componentMark : String := ";component/"

/-- The modules that locators can name. -/
structure LocatorNames where
  target : String
  secondaries : List String
deriving DecidableEq

/-- Whether a text ends like the name of a markup file, in any case. -/
def endsInMarkup (literal : String) : Bool :=
  ".xaml".toList.isSuffixOf (Text.asciiLower literal).toList

/-- Whether a literal may be a locator. -/
def isLocator (literal : String) : Bool :=
  "/".toList.isPrefixOf literal.toList || packPrefix.toList.isPrefixOf literal.toList
    || endsInMarkup literal

namespace LocatorNames

/-- Move the locators that name a module into the directory of that module. -/
def relocate? (n : LocatorNames) (literal secondary : String) : Option String :=
  Text.replace? ("/" ++ secondary ++ componentMark)
    ("/" ++ n.target ++ componentMark ++ secondary ++ "/") literal

/-- Move the locators that name any of the modules, one module after the other. -/
def relocateAll? (n : LocatorNames) (literal : String) : Option String :=
  n.secondaries.foldl (fun moved secondary ↦
    n.relocate? (moved.getD literal) secondary <|> moved) none

/-- Move a path without a module into the directory of the module that it was written in. -/
def relocatePath? (literal secondary : String) : Option String :=
  if endsInMarkup literal && !Text.occursIn componentMark.toList literal.toList then
    match literal.toList with
    | '/' :: rest => some ("/" ++ secondary ++ "/" ++ String.ofList rest)
    | _ => some (secondary ++ "/" ++ literal)
  else none

/-- A literal with its locator revised, if it has one. `origin` is the secondary module that the
literal was written in; none stands for the primary. -/
def patchLiteral? (n : LocatorNames) (literal : String) (origin : Option String) : Option String :=
  if isLocator literal then
    match origin with
    | none => n.relocateAll? literal
    | some secondary => n.relocate? literal secondary <|> relocatePath? literal secondary
  else none

end LocatorNames

namespace Context

/-- The modules that locators can name in a link. -/
def locatorNames (ctx : Context) : LocatorNames where
  target := ctx.targetName
  secondaries := ctx.registry.secondaries.map fun id ↦ (ctx.module id).name

/-- Whether the code of a module may hold locators. -/
def usesLocators (ctx : Context) (m : ModuleId) : Bool := (ctx.module m).references locatorFramework

/-- The name of a module when it is a secondary one. -/
def secondaryName? (ctx : Context) (m : ModuleId) : Option String :=
  if ctx.registry.isPrimary m then none else some (ctx.module m).name

end Context

/-- Revise a string literal of a module whose code may hold locators. The code belongs to the module
of its block, and outside of blocks to the module that declared the type of its method. -/
def patchLocator (ctx : Context) (map : SymbolMap) (m : Module) : Revision :=
  fun id is position ↦ do
    let i ← is[position]?
    match i.operand with
    | .string literal =>
      let origin ← map.blockOrigin? id position <|> map.typeOrigin? (m.method id).declaring
      if ctx.usesLocators origin then
        let patched ← ctx.locatorNames.patchLiteral? literal (ctx.secondaryName? origin)
        return { i with operand := .string patched }
      else none
    | _ => none

/-- Revise the locators of a module, and count them. -/
def patchLocators (ctx : Context) (map : SymbolMap) (m : Module) : Nat × Module :=
  (m.countRevised (patchLocator ctx map m), m.revise (patchLocator ctx map m))

end ModuleLinker
