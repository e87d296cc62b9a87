import Scaffold.Proofs.MemorySpellings

/-!
# Sessions on a tree in memory

A session makes requests of one tree: it adds to it, asks the tree for its
entries, changes them one by one and generates into it. Spelling the paths of
the requests otherwise changes nothing but spellings: each answer says the
same, and the trees hold the same entries, each of them once and in order.
-/

namespace Scaffold

open ProjectTree Scaffold.Path

-- ---------------------------------------------------------------------------
-- Calls
-- ---------------------------------------------------------------------------

/-- The same text in the same language, in a file that is perhaps spelled otherwise. -/
structure SourceFile.Respells (s s' : SourceFile) : Prop where
  path : s.path.Respells s'.path
  language : s'.language = s.language
  text : s'.text = s.text

structure Call.Respells (c c' : Call) : Prop where
  settings : c.settings.Respells c'.settings
  source : c.source.Respells c'.source

/-- Only the failure to find a class names the file. -/
theorem SourceFile.Respells.resolve {s s' : SourceFile} (h : s.Respells s') (strict : Bool) :
    Matched Failure.Respells Eq (s.resolve strict) (s'.resolve strict) := by
  have hpieces : s'.pieces = s.pieces := by rw [pieces, pieces, h.language, h.text]
  have hdeclaration : s'.declaration? = s.declaration? := by
    rw [declaration?, declaration?, outline, outline, h.language, hpieces]
  have hpackage : s'.packageName? = s.packageName? := by
    rw [packageName?, packageName?, h.language, hpieces]
  rw [SourceFile.resolve, SourceFile.resolve, hdeclaration, hpackage, h.language]
  cases s.declaration? with
  | none => exact .error (.noClass h.path)
  | some d =>
    cases strict with
    | false => exact .ok rfl
    | true =>
      dsimp only
      cases d.fields.find? Field.isUnresolved with
      | none => exact .ok rfl
      | some field => exact .error (Failure.Respells.untypedField d.name field.name)

theorem Call.Respells.asks {c c' : Call} (h : c.Respells c') :
    MemoryTree.respelling.Asks c.settings c'.settings c.source.path c'.source.path := by
  obtain ⟨hpackage, hbase⟩ := Context.ofFile_respelled h.source.path
    (h.settings.rootsFor h.source.path)
  exact ⟨h.settings.policy, h.settings.strictTypes, h.settings.dryRun, hpackage.symm, hbase⟩

namespace MemoryTree

-- ---------------------------------------------------------------------------
-- Requests and answers
-- ---------------------------------------------------------------------------

inductive Request
  | addDirectory (path : Path)
  | addFile (path : Path) (content : String)
  | findSubdirectory (directory : Path) (name : String)
  | createSubdirectory (directory : Path) (name : String)
  | ensureSubdirectories (base : Path) (relative : String)
  | fileExists (path : Path)
  | insertTextFile (directory : Path) (name content : String)
  | removeFile (path : Path)
  | hasDirectory (path : Path)
  | content (path : Path)
  | generate (call : Call)

inductive Answer
  | done
  | found (path : Option Path)
  | placed (result : Except Failure Path)
  | truth (b : Bool)
  | removed (result : Except Failure Unit)
  | content (text : Option String)
  | reported (result : Except Failure Report)

/-- The answer to a request, and the tree after it. -/
def request (t : MemoryTree) : Request → Answer × MemoryTree
  | .addDirectory path => (.done, t.withDirectory path)
  | .addFile path content => (.done, t.withFile path content)
  | .findSubdirectory directory name => (.found (findSubdirectory t directory name), t)
  | .createSubdirectory directory name =>
    let done := createSubdirectory t directory name
    (.placed done.1, done.2)
  | .ensureSubdirectories base relative =>
    let done := ensureSubdirectories t base relative
    (.placed done.1, done.2)
  | .fileExists path => (.truth (fileExists t path), t)
  | .insertTextFile directory name content =>
    let done := insertTextFile t directory name content
    (.placed done.1, done.2)
  | .removeFile path =>
    let done := removeFile t path
    (.removed done.1, done.2)
  | .hasDirectory path => (.truth (t.hasDirectory path), t)
  | .content path => (.content (t.content? path), t)
  | .generate call =>
    let done := Scaffolder.call { tree := t } call
    (.reported done.1, done.2.tree)

/-- The answers to some requests, each made of the tree that the one before has left. -/
def session (t : MemoryTree) : List Request → List Answer × MemoryTree
  | [] => ([], t)
  | r :: rs =>
    let rest := session (t.request r).2 rs
    ((t.request r).1 :: rest.1, rest.2)

/-- The same request with paths that are perhaps spelled otherwise. -/
inductive Request.Respells : Request → Request → Prop
  | addDirectory {p q} : p.Respells q → Respells (.addDirectory p) (.addDirectory q)
  | addFile {p q content} : p.Respells q → Respells (.addFile p content) (.addFile q content)
  | findSubdirectory {p q name} : p.Respells q →
      Respells (.findSubdirectory p name) (.findSubdirectory q name)
  | createSubdirectory {p q name} : p.Respells q →
      Respells (.createSubdirectory p name) (.createSubdirectory q name)
  | ensureSubdirectories {p q relative} : p.Respells q →
      Respells (.ensureSubdirectories p relative) (.ensureSubdirectories q relative)
  | fileExists {p q} : p.Respells q → Respells (.fileExists p) (.fileExists q)
  | insertTextFile {p q name content} : p.Respells q →
      Respells (.insertTextFile p name content) (.insertTextFile q name content)
  | removeFile {p q} : p.Respells q → Respells (.removeFile p) (.removeFile q)
  | hasDirectory {p q} : p.Respells q → Respells (.hasDirectory p) (.hasDirectory q)
  | content {p q} : p.Respells q → Respells (.content p) (.content q)
  | generate {c c' : Call} : c.Respells c' → Respells (.generate c) (.generate c')

/-- The same answer with paths that are perhaps spelled otherwise. -/
inductive Answer.Respells : Answer → Answer → Prop
  | done : Respells .done .done
  | found {p q} : Option.Rel Path.Respells p q → Respells (.found p) (.found q)
  | placed {x y} : Matched Failure.Respells Path.Respells x y → Respells (.placed x) (.placed y)
  | truth (b) : Respells (.truth b) (.truth b)
  | removed {x y} : Matched Failure.Respells (fun _ _ => True) x y →
      Respells (.removed x) (.removed y)
  | content (text) : Respells (.content text) (.content text)
  | reported {x y} : Matched Failure.Respells respelling.Report x y →
      Respells (.reported x) (.reported y)

-- ---------------------------------------------------------------------------
-- Sessions
-- ---------------------------------------------------------------------------

variable {t t' : MemoryTree} {r r' : Request} {rs rs' : List Request}

theorem Respells.request (h : t.Respells t') (hr : r.Respells r') :
    (t.request r).1.Respells (t'.request r').1 ∧ (t.request r).2.Respells (t'.request r').2 := by
  cases hr with
  | addDirectory hp => exact ⟨.done, h.withDirectory hp⟩
  | addFile hp => exact ⟨.done, h.withFile hp _⟩
  | findSubdirectory hp => exact ⟨.found (respelling.find h hp trivial), h⟩
  | createSubdirectory hp =>
    obtain ⟨hresult, htree⟩ := respelling.create h hp trivial
    exact ⟨.placed hresult, htree⟩
  | ensureSubdirectories hp =>
    obtain ⟨hresult, htree⟩ := respelling.descend h hp fun _ _ => trivial
    exact ⟨.placed hresult, htree⟩
  | fileExists hp =>
    simp only [MemoryTree.request, respelling.here h hp]
    exact ⟨.truth _, h⟩
  | insertTextFile hp =>
    exact ⟨.placed (.ok (hp.join _)), h.directories, h.files.insert (hp.join _) _, h.created⟩
  | removeFile hp =>
    obtain ⟨hresult, htree⟩ := respelling.remove h hp
    exact ⟨.removed hresult, htree⟩
  | hasDirectory hp =>
    simp only [MemoryTree.request, h.hasDirectory hp]
    exact ⟨.truth _, h⟩
  | content hp =>
    simp only [MemoryTree.request, h.content? hp]
    exact ⟨.content _, h⟩
  | @generate c c' hc =>
    obtain ⟨hresult, htree⟩ := respelling.generate .idle .idle h hc.asks
      (hc.source.resolve c.settings.strictTypes)
    exact ⟨.reported hresult, htree⟩

theorem Respells.session (h : t.Respells t') (hrs : List.Forall₂ Request.Respells rs rs') :
    List.Forall₂ Answer.Respells (t.session rs).1 (t'.session rs').1 ∧
      (t.session rs).2.Respells (t'.session rs').2 := by
  induction hrs generalizing t t' with
  | nil => exact ⟨.nil, h⟩
  | cons hr _ ih =>
    obtain ⟨hanswer, hafter⟩ := h.request hr
    obtain ⟨hanswers, hlast⟩ := ih hafter
    exact ⟨.cons hanswer hanswers, hlast⟩

/-- A call enters directories and inserts files, so it keeps the order. -/
theorem Ascending.request (h : t.Ascending) (r : Request) : (t.request r).2.Ascending := by
  cases r with
  | addDirectory path => exact h.withDirectory path
  | addFile path content => exact h.withFile path content
  | findSubdirectory => exact h
  | createSubdirectory => exact ⟨h.directories.insert _ (), h.files⟩
  | ensureSubdirectories base relative =>
    change (ensureSubdirectories t base relative).2.Ascending
    rw [ensureSubdirectories, descend_snd]
    exact h.enterAll _
  | fileExists => exact h
  | insertTextFile => exact ⟨h.directories, h.files.insert _ _⟩
  | removeFile path => exact ⟨h.directories, h.files.erase path⟩
  | hasDirectory => exact h
  | content => exact h
  | generate call =>
    change (Scaffolder.call { tree := t } call).2.tree.Ascending
    rw [Scaffolder.tree_call, Transaction.foldl_perform]
    exact ⟨(h.enterAll _).directories, h.files.insertAll _⟩

theorem Ascending.session (h : t.Ascending) (rs : List Request) : (t.session rs).2.Ascending := by
  induction rs generalizing t with
  | nil => exact h
  | cons r rs ih => exact ih (h.request r)

theorem ascending_empty : Ascending {} := ⟨.nil, .nil⟩

/-- Sessions that differ in the spelling of their paths answer alike and leave trees that differ in
spelling only. After every session the tree lists its entries in strictly ascending order, so that
no two directories and no two files have the same components. -/
theorem session_respelled (h : List.Forall₂ Request.Respells rs rs') :
    let first := session {} rs
    let second := session {} rs'
    List.Forall₂ Answer.Respells first.1 second.1 ∧ first.2.Respells second.2 ∧
      first.2.Ascending ∧
      (first.2.directories.map fun entry => entry.1.components).Nodup ∧
      (first.2.files.map fun entry => entry.1.components).Nodup := by
  intro first second
  have hempty : Respells {} {} := ⟨.nil, .nil, rfl⟩
  obtain ⟨hanswers, htrees⟩ := hempty.session h
  have hascending := ascending_empty.session rs
  exact ⟨hanswers, htrees, hascending, hascending.directories.nodup, hascending.files.nodup⟩

/-- A file is added under one spelling and found under another, and a run refuses to replace what
was written under a third. -/
theorem session_respelled_mapper :
    let order (path : Path) (root : Path) : Call :=
      ⟨{ roots := some ⟨[root]⟩ }, ⟨path, .java, "class Order \x7b\x7d"⟩⟩
    let rs : List Request :=
      [.addFile ⟨"p/app/mapper/OrderMapper.java"⟩ "mine", .fileExists ⟨"p/app/mapper"⟩,
       .generate (order ⟨"p/app/domain/Order.java"⟩ ⟨"p"⟩)]
    let rs' : List Request :=
      [.addFile ⟨"p//app/./mapper/OrderMapper.java/"⟩ "mine", .fileExists ⟨"p/app/mapper/."⟩,
       .generate (order ⟨"p/app//domain/./Order.java"⟩ ⟨"p/."⟩)]
    List.Forall₂ Request.Respells rs rs' ∧
      List.Forall₂ Answer.Respells (session {} rs).1 (session {} rs').1 ∧
      (session {} rs).2.Respells (session {} rs').2 ∧ (session {} rs).2.Ascending := by
  intro order rs rs'
  have hrs : List.Forall₂ Request.Respells rs rs' := by
    refine .cons (.addFile (by decide +kernel)) (.cons (.fileExists (by decide +kernel))
      (.cons (.generate ⟨⟨.some (by decide +kernel), rfl, rfl, rfl⟩,
        ⟨by decide +kernel, rfl, rfl⟩⟩) .nil))
  obtain ⟨hanswers, htrees, hascending, -⟩ := session_respelled hrs
  exact ⟨hrs, hanswers, htrees, hascending⟩

end MemoryTree

end Scaffold
