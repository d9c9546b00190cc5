import HtmlTemplate.Markup.Serialize
import HtmlTemplate.Template.Engine
import HtmlTemplate.Text.Quoted
/-!
Components under their names, rendered with the methods of a host.  The template of a component is
given as markup or supplied when it is first needed; a supply that fails is asked for again.
Components nest up to a limit.
-/

namespace HtmlTemplate

/-- Where a template comes from: its markup, or a supplier, which is told how often it was called
before. -/
inductive Template where
  | markup (source : Text)
  | supplied (supplier : Nat → Except Text Text)

namespace Template

def origin : Template → String
  | .markup _ => "markup"
  | .supplied _ => "lazy"

def describe (template : Template) (loaded : Bool) : String :=
  "Template \x7b source: \"" ++ template.origin ++ "\", loaded: " ++ toString loaded ++ " \x7d"

end Template

/-- A change of a component's properties before it is rendered; it is told how many times it has
been made by now. -/
abbrev Setup := Nat → Bindings → Bindings

/-- A registered component; `id` is the number of its registration. -/
structure Component where
  id : Nat
  template : Template
  setup : Option Setup

namespace Component

def rootOf (source : Text) : Except RenderError Node :=
  ((Document.ofText source).bind Document.root).mapError .malformed

def markupOf (component : Component) (name : Text) (loads : Nat) : Except RenderError Text :=
  match component.template with
  | .markup source => .ok source
  | .supplied supplier => (supplier loads).mapError (.load name)

/-- The root node of a component's template, remembered from the first time that it can be had. -/
def root (component : Component) (name : Text) : RenderM Node := do
  let store ← get
  let record := store.get component.id
  match record.root with
  | some node => pure node
  | none =>
      match (component.markupOf name record.loads).bind rootOf with
      | .ok node =>
          set (store.set component.id { record with root := some node, loads := record.loads + 1 })
          pure node
      | .error error =>
          set (store.set component.id { record with loads := record.loads + 1 })
          throw error

def prepare (component : Component) (properties : Bindings) : RenderM Bindings :=
  match component.setup with
  | none => pure properties
  | some setup => do
      let store ← get
      let record := store.get component.id
      set (store.set component.id { record with setups := record.setups + 1 })
      pure (setup (record.setups + 1) properties)

end Component

/-- Components and methods.  A component may be nested in at most `limit` others. -/
structure App where
  components : Registry Component
  methods : Methods
  limit : Nat
  registrations : Nat

namespace App

def defaultLimit : Nat := 64

def ofMethods (methods : Methods) : App := ⟨.empty, methods, defaultLimit, 0⟩

def register (app : App) (name : Text) (template : Template) (setup : Option Setup) : App :=
  { app with
    components := app.components.register name ⟨app.registrations, template, setup⟩
    registrations := app.registrations + 1 }

/-- Renders a component in which at most `remaining - 1` more may be nested. -/
def instantiate (app : App) : Nat → Instantiate
  | 0, name, _ => throw (.tooDeep name app.limit)
  | remaining + 1, name, properties =>
      match app.components.get? name with
      | none => throw (.unknownComponent name)
      | some component => do
          let root ← component.root name
          let bindings ← component.prepare properties
          Engine.renderNodes (app.instantiate remaining) (.ofBindings bindings app.methods) [root]

def renderToNodes (app : App) (name : Text) (data : Bindings) : RenderM (List Node) :=
  app.instantiate (app.limit + 1) name data

def render (app : App) (name : Text) (data : Bindings) : RenderM Text := do
  let nodes ← app.renderToNodes name data
  pure (Markup.serializeNodes nodes)

def renderToNode (app : App) (name : Text) (data : Bindings) : RenderM Node := do
  match ← app.renderToNodes name data with
  | [node] => pure node
  | [] => throw (.malformed .noRoot)
  | first :: rest => throw (.malformed (.severalRoots (first :: rest).length))

def evaluate (app : App) (source : Text) (data : Bindings) : Except RenderError Value :=
  (Scope.ofBindings data app.methods).evaluate source

def listed (names : List Text) : String :=
  ", ".intercalate (names.map fun name => String.ofList (Text.quoted name))

def describe (app : App) : String :=
  "App \x7b components: [" ++ listed app.components.names ++ "], methods: \x7b" ++
    listed app.methods.names ++ "\x7d, options: RenderOptions \x7b max_component_depth: " ++
    toString app.limit ++ " \x7d \x7d"

end App

def rootName : Text := "root".toList

def render (template : Text) (data : Bindings) (methods : Methods) : Except RenderError Text :=
  let app := (App.ofMethods methods).register rootName (.markup template) none
  ((app.render rootName data).run .empty).1

end HtmlTemplate
