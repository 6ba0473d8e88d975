import PdfBridge.Persistence.Models
import PdfBridge.Services.Errors

/-! The catalog as one table of documents, and the selections made on it. -/
namespace PdfBridge

structure Catalog where
  documents : Table Document.id
deriving DecidableEq

namespace Catalog

def empty : Catalog := ⟨∅⟩

def document? (c : Catalog) (id : Uuid) : Option Document := c.documents.lookup id

def put (c : Catalog) (d : Document) : Catalog := ⟨c.documents.put d⟩

@[simp] theorem document?_empty (id : Uuid) : empty.document? id = none := rfl

theorem document?_put (c : Catalog) (d : Document) (id : Uuid) :
    (c.put d).document? id = if d.id = id then some d else c.document? id :=
  c.documents.lookup_put d id

@[simp] theorem document?_put_self (c : Catalog) (d : Document) :
    (c.put d).document? d.id = some d := by simp [document?_put]

theorem document?_put_of_ne {c : Catalog} {d : Document} {id : Uuid} (h : d.id ≠ id) :
    (c.put d).document? id = c.document? id := by simp [document?_put, h]

theorem id_of_document? {c : Catalog} {id : Uuid} {d : Document}
    (h : c.document? id = some d) : d.id = id := Table.key_of_lookup h

theorem mem_of_document? {c : Catalog} {id : Uuid} {d : Document}
    (h : c.document? id = some d) : d ∈ c.documents := Table.mem_of_lookup h

theorem document?_of_mem {c : Catalog} {d : Document} (h : d ∈ c.documents) :
    c.document? d.id = some d := Table.lookup_of_mem h

/-- Every queued, running or finished operation of the catalog. -/
def operations (c : Catalog) : List WorkOperation :=
  c.documents.rows.flatMap fun d => d.operations.rows

theorem mem_operations {c : Catalog} {o : WorkOperation} :
    o ∈ c.operations ↔ ∃ d, d ∈ c.documents ∧ o ∈ d.operations := by
  simp [operations, Table.mem_def]

end Catalog

/-- `QUEUED` or `RUNNING`. -/
def WorkOperation.isOpen (o : WorkOperation) : Bool :=
  o.state = .queued || o.state = .running

namespace Document

def operation? (d : Document) (id : Uuid) : Option WorkOperation := d.operations.lookup id

def putOperation (d : Document) (o : WorkOperation) : Document :=
  {d with operations := d.operations.put o}

def revision? (d : Document) (id : Uuid) : Option PreparedRevision :=
  d.preparedRevisions.lookup id

def putRevision (d : Document) (r : PreparedRevision) : Document :=
  {d with preparedRevisions := d.preparedRevisions.put r}

def putPublication (d : Document) (p : PublicationRecord) : Document :=
  {d with publications := d.publications.put p}

/-- `_publication_for_revision`. -/
def publicationForRevision (d : Document) (revisionId : Uuid) : Option PublicationRecord :=
  d.publications.rows.find? fun p => p.preparedRevisionId = revisionId

/-- The decision of a revision, as `revision.decision`. -/
def decisionOf (d : Document) (revisionId : Uuid) : Option Decision :=
  d.decisions.find? fun x => x.preparedRevisionId = revisionId

def clearFailure (d : Document) : Document :=
  {d with failureCode := none, failureMessage := none, failureRetryable := false}

end Document
end PdfBridge
