import ObjectQuery.Eval.Scope
import ObjectQuery.Settings

/-!
A small shop to try queries on: customers, their orders with details, the products, and the staff. It
has missing values, keys that lead nowhere, members stored under other names, and an entity that is
associated with itself.
-/

namespace ObjectQuery.Sample

def member (name : String) (type : ColumnType) : Mapping.Member :=
  { name, column := none, type, primaryKey := false, generated := false }

def key (name : String) (type : ColumnType) : Mapping.Member :=
  { member name type with primaryKey := true }

def many (name target key relatedKey : String) : Mapping.Association :=
  { name, target, keys := [key], relatedKeys := [relatedKey], singleton := false }

def one (name target key relatedKey : String) : Mapping.Association :=
  { many name target key relatedKey with singleton := true }

def customer : Mapping.Entity :=
  { name := "Customer", table := "Customers"
    members := [key "CustomerID" .text, member "CompanyName" .text, member "City" .text]
    associations := [many "Orders" "Order" "CustomerID" "CustomerID"] }

def order : Mapping.Entity :=
  { name := "Order", table := "Orders"
    members := [{ key "OrderID" .int with generated := true }, member "CustomerID" .text,
      member "Freight" .float, { member "Date" .dateTime with column := some "OrderDate" }]
    associations := [one "Customer" "Customer" "CustomerID" "CustomerID",
      many "Details" "Detail" "OrderID" "OrderID"] }

def detail : Mapping.Entity :=
  { name := "Detail", table := "OrderDetails"
    members := [key "OrderID" .int, { key "Line" .int with column := some "LineNo" },
      member "ProductID" .int, { member "Qty" .int with column := some "Quantity" }]
    associations := [one "Order" "Order" "OrderID" "OrderID",
      one "Product" "Product" "ProductID" "ProductID"] }

def product : Mapping.Entity :=
  { name := "Product", table := "Products"
    members := [{ key "ProductID" .int with generated := true }, member "Name" .text,
      member "Price" .float, member "Active" .bool]
    associations := [] }

def employee : Mapping.Entity :=
  { name := "Employee", table := "Staff"
    members := [key "ID" .int, member "Name" .unknown,
      { member "BossID" .int with column := some "boss_id" }]
    associations := [one "Boss" "Employee" "BossID" "ID", many "Team" "Employee" "ID" "BossID"] }

def config : Mapping.Config := ⟨[customer, order, detail, product, employee]⟩

def context (dialect : Dialect) (affinity : Affinity) : Context :=
  ⟨⟨config.entities⟩, dialect, ⟨[]⟩, affinity⟩

def rows (columns : List String) (values : List (List Value)) : List Row :=
  values.map columns.zip

def customers : List Row :=
  rows ["CustomerID", "CompanyName", "City"]
    [[.text "C1", .text "Alfa", .text "London"],
      [.text "C2", .text "beta co", .text "Paris"],
      [.text "C3", .text "Çelik", .null],
      [.text "C4", .text "Delta", .text "London"],
      [.text "C5", .text " Echo ", .text "Zürich"],
      [.text "C6", .text "", .null],
      [.text "C7", .text "Golf", .text "Paris"]]

def orders : List Row :=
  rows ["OrderID", "CustomerID", "Freight", "OrderDate"]
    [[.int 1, .text "C1", .float 10.5, .text "2020-01-05"],
      [.int 2, .text "C1", .float 20.0, .text "2020-02-01"],
      [.int 3, .text "C2", .null, .text "2019-12-31"],
      [.int 4, .text "C4", .float 10.5, .null],
      [.int 5, .text "C9", .float 7.25, .text "2021-06-30"],
      [.int 6, .null, .float (-3.0), .text "2020-01-05"],
      [.int 7, .text "C1", .float 0.0, .text "2020-03-01"],
      [.int 8, .text "C5", .float 99.99, .text "2020-01-06"]]

def details : List Row :=
  rows ["OrderID", "LineNo", "ProductID", "Quantity"]
    [[.int 1, .int 1, .int 100, .int 2],
      [.int 1, .int 2, .int 101, .int 5],
      [.int 2, .int 1, .int 100, .int 1],
      [.int 3, .int 1, .int 102, .null],
      [.int 4, .int 1, .int 999, .int 4],
      [.int 8, .int 1, .int 101, .int (-1)],
      [.int 8, .int 2, .null, .int 3]]

def products : List Row :=
  rows ["ProductID", "Name", "Price", "Active"]
    [[.int 100, .text "Tea", .float 2.5, .bool true],
      [.int 101, .text "Süßgebäck", .float 12.0, .bool false],
      [.int 102, .text "Cola", .null, .null]]

def staff : List Row :=
  rows ["ID", "Name", "boss_id"]
    [[.int 1, .text "Ann", .null],
      [.int 2, .text "Bob", .int 1],
      [.int 3, .text "Cy", .int 1],
      [.int 4, .text "Dee", .int 2]]

def tables : Tables :=
  ⟨[("Customers", customers), ("Orders", orders), ("OrderDetails", details),
    ("Products", products), ("Staff", staff)]⟩

end ObjectQuery.Sample
