import Workflow.Site
/-!
Sites side by side. They draw on one library and one supply of identifiers, and several of them can
use one definition store.
-/

namespace Workflow

structure Fleet where
  library : Library
  issued : Nat
  stores : Dict DefinitionStore
  /-- The sites, each with the name of the store it uses. What they share is kept above. -/
  sites : Dict (String × Site)

inductive StoreChoice where
  /-- The one that is founded with it. -/
  | own
  /-- The one that another site uses. -/
  | sharedWith (site : String)
  /-- A new one that reads another shelf first. -/
  | fronted
  /-- A new one that tells something else about itself. -/
  | announced (announcement : Announcement)

namespace Fleet

def empty : Fleet :=
  { library := .empty
    issued := 0
    stores := .empty
    sites := .empty }

def ownStoreName (site : String) : String := site ++ "/own"

def newStoreName (site : String) : String := site ++ "/new"

def frontShelf (site : String) : String := site ++ "/front"

def ownStore? (fleet : Fleet) (site : String) : Option DefinitionStore :=
  fleet.stores.get? (ownStoreName site)

def addStore (fleet : Fleet) (store : DefinitionStore) : Fleet :=
  { fleet with stores := fleet.stores.insert store.home store }

/-- The name of the store of a choice, and the fleet with that store. -/
def chooseStore (fleet : Fleet) (site : String) : StoreChoice → String × Fleet
  | .own => (ownStoreName site, fleet)
  | .sharedWith other => (((fleet.sites.get? other).map (·.1)).getD (ownStoreName site), fleet)
  | .fronted =>
    let name := newStoreName site
    (name, fleet.addStore { DefinitionStore.plain name with front := some (frontShelf site) })
  | .announced announcement =>
    let name := newStoreName site
    (name, fleet.addStore { DefinitionStore.plain name with announcement := some announcement })

/-- Founds a site, with a definition store of its own whether it uses that or not. -/
def found (fleet : Fleet) (name : String) (central : Bool) (choice : StoreChoice) : Fleet :=
  let (storeName, fleet) := (fleet.addStore (.plain (ownStoreName name))).chooseStore name choice
  { fleet with sites := fleet.sites.insert name (storeName, .fresh central) }

/-- A site with all that it shares, and the name of the store it uses. -/
def site? (fleet : Fleet) (name : String) : Option (String × Site) := do
  let (storeName, site) ← fleet.sites.get? name
  let definitions ← fleet.stores.get? storeName
  return (storeName, { site with definitions, library := fleet.library, issued := fleet.issued })

/-- Puts a site back after it was at work, with what it shares. -/
def putSite (fleet : Fleet) (name storeName : String) (site : Site) : Fleet :=
  { library := site.library
    issued := site.issued
    stores := fleet.stores.insert storeName site.definitions
    sites := fleet.sites.insert name (storeName, site) }

end Fleet

end Workflow
