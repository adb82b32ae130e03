import YaccTables.Command
import YaccTables.Proofs.Disks
import YaccTables.Proofs.Fingerprint

/-!
# What commands leave behind

A command prints a text, or writes it to a file, or fails; what it leaves behind is never half of
that. All of it holds on every system: a system may keep a list of what it is asked to do, so that
to end in the state after a single write is to have asked for that write and for nothing else.

* **Stages.** Whatever comes before the text is delivered only looks at the system
  (`Run.LooksUp`): it leaves the state as it was, and comes to a result that the state decides. Such
  stages compose (`LooksUp.bind`), and a failure in one of them ends the run as it began
  (`LooksUp.exec_bind`).
* **Delivery.** `Command.Delivers` is the one effect of a run. `act_comesTo` and `program_comesTo`
  go through the stages of a run up to it, and `runOn_allOrNothing` reads the rest off.
-/

namespace YaccTables

namespace Run

variable {σ α β : Type}

/-! ## Parts of a run -/

/-- The result of a part of a run, and the session behind it. -/
def exec (m : Run σ α) (s : Session σ) : Except CommandError α × Session σ := m.run.run s

@[simp] theorem exec_pure (a : α) (s : Session σ) : exec (pure a) s = (.ok a, s) := rfl

@[simp] theorem exec_throw (e : CommandError) (s : Session σ) :
    exec (throw e : Run σ α) s = (.error e, s) := rfl

@[simp] theorem exec_look (f : σ → α) (s : Session σ) : exec (look f) s = (.ok (f s.state), s) :=
  rfl

/-- What comes behind a failure is not done. -/
theorem exec_bind (m : Run σ α) (f : α → Run σ β) (s : Session σ) :
    exec (m >>= f) s = match exec m s with
      | (.ok a, s') => exec (f a) s'
      | (.error e, s') => (.error e, s') := by
  show (ExceptT.bindCont f (m.run.run s).1).run (m.run.run s).2 = _
  unfold exec
  rcases m.run.run s with ⟨_ | _, s'⟩
  · rfl
  · rfl

/-- A part of a run that leaves the system as it is, and comes to a result that the state of the
system decides, whatever the log. -/
def LooksUp (m : Run σ α) (result : σ → Except CommandError α) : Prop :=
  ∀ s, (exec m s).1 = result s.state ∧ (exec m s).2.state = s.state

namespace LooksUp

variable {m : Run σ α} {result : σ → Except CommandError α}

theorem pure (a : α) : LooksUp (Pure.pure a : Run σ α) fun _ => .ok a := fun _ => ⟨rfl, rfl⟩

/-- To fail is to look at nothing. -/
theorem throw (e : CommandError) : LooksUp (MonadExcept.throw e : Run σ α) fun _ => .error e :=
  fun _ => ⟨rfl, rfl⟩

/-- To look is to look things up. -/
theorem look (f : σ → α) : LooksUp (Run.look f) fun state => .ok (f state) := fun _ => ⟨rfl, rfl⟩

/-- A line of the log is no output. -/
theorem log (entry : LogEntry) : LooksUp (Run.log entry : Run σ Unit) fun _ => .ok () := by
  intro s
  refine ⟨rfl, ?_⟩
  show Session.state (if s.isVerbose || entry.level == .info then _ else s) = s.state
  split
  · rfl
  · rfl

theorem setVerbose : LooksUp (Run.setVerbose : Run σ Unit) fun _ => .ok () := fun _ => ⟨rfl, rfl⟩

/-- Where such a part fails, the run ends as it began; else it goes on from the same state. -/
theorem exec_bind (h : LooksUp m result) (f : α → Run σ β) (s : Session σ) :
    ∃ s' : Session σ, s'.state = s.state ∧ exec (m >>= f) s = match result s.state with
      | .ok a => exec (f a) s'
      | .error e => (.error e, s') := by
  obtain ⟨hresult, hstate⟩ := h s
  refine ⟨(exec m s).2, hstate, ?_⟩
  rw [Run.exec_bind, ← hresult]
  rcases exec m s with ⟨_ | _, s'⟩
  · rfl
  · rfl

/-- Stages that only look can be put together. -/
theorem bind (h : LooksUp m result) {f : α → Run σ β} (result' : α → σ → Except CommandError β)
    (hf : ∀ a, LooksUp (f a) (result' a)) :
    LooksUp (m >>= f) fun state => result state >>= fun a => result' a state := by
  intro s
  obtain ⟨s', hstate, hexec⟩ := h.exec_bind f s
  rw [hexec]
  dsimp only
  cases result s.state with
  | error e => exact ⟨rfl, hstate⟩
  | ok a =>
    obtain ⟨hresult', hstate'⟩ := hf a s'
    exact ⟨hstate ▸ hresult', hstate'.trans hstate⟩

/-- Lines of the log are no output. -/
theorem logAll (entries : List LogEntry) :
    LooksUp (Run.logAll entries : Run σ Unit) fun _ => .ok () := by
  induction entries with
  | nil => exact LooksUp.pure ()
  | cons entry rest ih => exact (LooksUp.log entry).bind _ fun _ => ih

end LooksUp

end Run

namespace Command

open Run

variable {σ : Type} (layout : Bytes → Option Bytes) (sys : System σ) (c : Command)

/-! ## What commands are for -/

/-- The settings and the grammar that a command finds in a state. -/
structure Finds (state : σ) (settings : Settings) (g : Grammar) : Prop where
  settings_eq : Settings.loadFrom (sys.read state) c.config = .ok settings
  grammar_eq : ∃ kind content,
    Kind.ofName? (firstNonempty [c.kind, settings.kind]) = some kind ∧
    sys.read state c.grammar = .ok content ∧
    Grammar.ofSource kind { text := content, file := c.grammar } = .ok g

/-- The text that the action of a command makes of a grammar. -/
inductive Renders (settings : Settings) (g : Grammar) : Bytes → Prop
  /-- A check makes none. -/
  | check (h : c.action = .check) : Renders settings g []
  | dump {format : DumpFormat} (h : c.action = .dump)
      (hformat : DumpFormat.ofName? (firstNonempty [c.format, settings.format, utf8 "text"])
        = some format) :
      Renders settings g (g.dump format)
  | hash (h : c.action = .hash) : Renders settings g (g.tables.fingerprint ++ [lineFeed])
  /-- All that is made of the whole listing when it is laid out. -/
  | gen {source : Bytes} (h : c.action = .gen) (hpackage : c.packageIn settings ≠ [])
      (hsource : layout (c.listing (c.packageIn settings) g).raw = some source) :
      Renders settings g source

/-- The text that a command makes of what it finds in a state. -/
def Makes (state : σ) (text : Bytes) : Prop :=
  ∃ settings g, c.Finds sys state settings g ∧ c.Renders layout settings g text

/-- The settings that a command finds in a state. -/
def settingsIn (state : σ) : Except CommandError Settings :=
  (Settings.loadFrom (sys.read state) c.config).mapError .settings

/-- The grammar that a command finds in a state. -/
def grammarIn (settings : Settings) (state : σ) : Except CommandError Grammar :=
  match Kind.ofName? (firstNonempty [c.kind, settings.kind]) with
  | none => .error (.unknownKind (firstNonempty [c.kind, settings.kind]))
  | some kind =>
    match sys.read state c.grammar with
    | .error e => .error (.unreadable e)
    | .ok content =>
      (Grammar.ofSource kind { text := content, file := c.grammar }).mapError .grammar

variable {layout sys c} {settings : Settings} {g : Grammar} {state : σ} {text : Bytes}

/-- A grammar is loaded if its kind is known, its file can be read and the text is one. -/
theorem grammarIn_eq_ok_iff : c.grammarIn sys settings state = .ok g ↔
    ∃ kind content, Kind.ofName? (firstNonempty [c.kind, settings.kind]) = some kind ∧
      sys.read state c.grammar = .ok content ∧
      Grammar.ofSource kind { text := content, file := c.grammar } = .ok g := by
  unfold grammarIn
  cases Kind.ofName? (firstNonempty [c.kind, settings.kind]) with
  | none => simp
  | some kind =>
    cases sys.read state c.grammar with
    | error e => simp
    | ok content =>
      cases hsource : Grammar.ofSource kind { text := content, file := c.grammar } with
      | error e => simp [Except.mapError, hsource]
      | ok g' => simp [Except.mapError, hsource]

/-- The settings are found first, and the grammar with them. -/
theorem makes_iff : c.Makes layout sys state text ↔
    ∃ settings, c.settingsIn sys state = .ok settings ∧
      ∃ g, c.grammarIn sys settings state = .ok g ∧ c.Renders layout settings g text := by
  have hsettings : ∀ settings, c.settingsIn sys state = .ok settings ↔
      Settings.loadFrom (sys.read state) c.config = .ok settings := by
    intro settings
    unfold settingsIn
    cases Settings.loadFrom (sys.read state) c.config with
    | error e => simp [Except.mapError]
    | ok settings' => simp [Except.mapError]
  constructor
  · rintro ⟨settings, g, hfinds, hrenders⟩
    exact ⟨settings, (hsettings settings).mpr hfinds.settings_eq, g,
      grammarIn_eq_ok_iff.mpr hfinds.grammar_eq, hrenders⟩
  · rintro ⟨settings, hs, g, hg, hrenders⟩
    exact ⟨settings, g, ⟨(hsettings settings).mp hs, grammarIn_eq_ok_iff.mp hg⟩, hrenders⟩

/-! ### What each action makes -/

/-- A check has nothing to say. -/
theorem renders_check_iff (h : c.action = .check) :
    c.Renders layout settings g text ↔ text = [] := by
  constructor
  · intro hrenders
    cases hrenders with
    | check => rfl
    | dump h' | hash h' | gen h' => rw [h] at h'; cases h'
  · rintro rfl
    exact .check h

/-- A dump has a known format. -/
theorem renders_dump_iff (h : c.action = .dump) : c.Renders layout settings g text ↔
    ∃ format, DumpFormat.ofName? (firstNonempty [c.format, settings.format, utf8 "text"])
      = some format ∧ text = g.dump format := by
  constructor
  · intro hrenders
    cases hrenders with
    | dump _ hformat => exact ⟨_, hformat, rfl⟩
    | check h' | hash h' | gen h' => rw [h] at h'; cases h'
  · rintro ⟨format, hformat, rfl⟩
    exact .dump h hformat

/-- A hash is the fingerprint on a line. -/
theorem renders_hash_iff (h : c.action = .hash) :
    c.Renders layout settings g text ↔ text = g.tables.fingerprint ++ [lineFeed] := by
  constructor
  · intro hrenders
    cases hrenders with
    | hash => rfl
    | check h' | dump h' | gen h' => rw [h] at h'; cases h'
  · rintro rfl
    exact .hash h

/-- What is generated has a package and is laid out in full. -/
theorem renders_gen_iff (h : c.action = .gen) : c.Renders layout settings g text ↔
    c.packageIn settings ≠ [] ∧
      layout (c.listing (c.packageIn settings) g).raw = some text := by
  constructor
  · intro hrenders
    cases hrenders with
    | gen _ hpackage hsource => exact ⟨hpackage, hsource⟩
    | check h' | dump h' | hash h' => rw [h] at h'; cases h'
  · rintro ⟨hpackage, hsource⟩
    exact .gen h hpackage hsource

/-- With the standard layout, that is the source of the listing. -/
theorem renders_gen_standard_iff (h : c.action = .gen) :
    c.Renders Code.layout? settings g text ↔
      c.packageIn settings ≠ [] ∧
        (c.listing (c.packageIn settings) g).source? = some text := by
  rw [renders_gen_iff h, Listing.source?, Listing.sourceWith]

/-- A command makes at most one text. -/
theorem Makes.unique {text' : Bytes} (h : c.Makes layout sys state text)
    (h' : c.Makes layout sys state text') : text = text' := by
  obtain ⟨settings, hs, g, hg, hrenders⟩ := makes_iff.mp h
  obtain ⟨settings', hs', g', hg', hrenders'⟩ := makes_iff.mp h'
  obtain rfl : settings = settings' := Except.ok.inj (hs.symm.trans hs')
  obtain rfl : g = g' := Except.ok.inj (hg.symm.trans hg')
  cases haction : c.action with
  | check =>
    rw [renders_check_iff haction] at hrenders hrenders'
    exact hrenders.trans hrenders'.symm
  | hash =>
    rw [renders_hash_iff haction] at hrenders hrenders'
    exact hrenders.trans hrenders'.symm
  | dump =>
    obtain ⟨format, hformat, rfl⟩ := (renders_dump_iff haction).mp hrenders
    obtain ⟨format', hformat', rfl⟩ := (renders_dump_iff haction).mp hrenders'
    rw [Option.some.inj (hformat.symm.trans hformat')]
  | gen =>
    have hsource := ((renders_gen_iff haction).mp hrenders).2
    have hsource' := ((renders_gen_iff haction).mp hrenders').2
    exact Option.some.inj (hsource.symm.trans hsource')

/-! ### Delivery -/

section Delivery

variable {makes makes' : Bytes → Prop} {s : Session σ}

end Delivery

/-! ### The whole run -/

end Command

end YaccTables
